import Ephemera.Proofs.Machine.Later
import Ephemera.Proofs.Machine.Session

/-!
# Sound machines

In the middle of nested computations the session is sound, with the keys of all computations
in use; every computation on the stack that runs for a ticket has one of generation zero, for
a slot of its own key; and whatever fault is around has a cause outside of the memo: a name
for which the caller holds nothing, a computation that gave up, or more chains asked for than can
be allocated (`Scene.Excuses`).

Each part of a step is taken by itself. A part that works for a demand which is not yet on the
stack, or no longer, finds the key of the demand among the keys in use all the same.
-/

namespace Ephemera

/-! ## Faults and their causes -/

mutual

/-- The faults in a reply. -/
def Reply.faults {ρ : Type} : Reply ρ → List Fault
  | .single _ => []
  | .several replies => faultsAll replies
  | .struck fault => [fault]

/-- The faults in several replies. -/
def Reply.faultsAll {ρ : Type} : List (Reply ρ) → List Fault
  | [] => []
  | reply :: rest => reply.faults ++ faultsAll rest

end

theorem Reply.mem_faultsAll {ρ : Type} {replies : List (Reply ρ)} {fault : Fault} :
    fault ∈ faultsAll replies ↔ ∃ reply ∈ replies, fault ∈ reply.faults := by
  induction replies with
  | nil => simp [faultsAll]
  | cons reply rest ih => simp [faultsAll, ih]

/-- The faults in an event. -/
def MemoEvent.faults : MemoEvent → List Fault
  | .did _ reply => reply.faults
  | _ => []

/-- The faults in the replies that a frame has collected. -/
def Frame.faults : Frame → List Fault
  | .several _ _ _ replies => Reply.faultsAll replies
  | .computing .. => []

/-- The ticket of a computation has generation zero, and is one for a slot of its key. -/
def Frame.Ticketed (m : Memo String) : Frame → Prop
  | .several .. => True
  | .computing _ key _ ticket _ _ => ∀ t, ticket = some t →
    t.generation = 0 ∧ ∃ slot, m.slots[t.slot]? = some slot ∧ slot.key = key

theorem Frame.Ticketed.later {frame : Frame} {m m' : Memo String} (h : frame.Ticketed m)
    (hlater : m.Later m') : frame.Ticketed m' := by
  cases frame with
  | several => exact h
  | computing origin key call ticket pending ending =>
    intro t ht
    obtain ⟨hgeneration, slot, hslot, hkey⟩ := h t ht
    obtain ⟨slot', hslot', hkey', -⟩ := hlater.slots t.slot slot hslot
    exact ⟨hgeneration, slot', hslot', hkey'.trans hkey⟩

namespace Scene

variable {w : Scene} {inUse : List Key} {stack : List Frame} {fault : Fault}

/-- The faults in the events of a scene. -/
def faults (w : Scene) : List Fault :=
  w.events.flatMap MemoEvent.faults

/-- A fault has a cause outside of the memo. -/
def Excuses (w : Scene) (fault : Fault) : Prop :=
  (∃ name, fault = .unheld name) ∨
    (fault = .overflow ∧ isOversized w.session.memo.table.initial = true) ∨
      ∃ message key call, fault = .raised message ∧ .gaveUp key call ∈ w.events

theorem Excuses.mono {w' : Scene} (h : w.Excuses fault) (hsub : w.events ⊆ w'.events)
    (hinitial : w'.session.memo.table.initial = w.session.memo.table.initial) :
    w'.Excuses fault := by
  rcases h with h | ⟨hfault, hoversized⟩ | ⟨message, key, call, hfault, hmem⟩
  · exact .inl h
  · exact .inr (.inl ⟨hfault, hinitial ▸ hoversized⟩)
  · exact .inr (.inr ⟨message, key, call, hfault, hsub hmem⟩)

/-- The invariant of a scene with a stack, given which keys are in use. -/
structure Sound (inUse : List Key) (w : Scene) (stack : List Frame) : Prop where
  /-- the session is sound -/
  session : w.session.Sound inUse
  /-- the keys of all computations are in use -/
  covers : keysInUse stack ⊆ inUse
  /-- tickets have generation zero and are for slots of their keys -/
  tickets : ∀ frame ∈ stack, frame.Ticketed w.session.memo
  /-- faults in events have a cause outside of the memo -/
  excused : ∀ fault ∈ w.faults, w.Excuses fault
  /-- and so have those in collected replies -/
  collected : ∀ fault ∈ stack.flatMap Frame.faults, w.Excuses fault

/-- Nothing is under way in a session that is sound, and nothing has happened. -/
theorem sound_fresh {s : MemoSession} (hs : s.Sound []) :
    (⟨s, []⟩ : Scene).Sound (keysInUse []) [] where
  session := hs
  covers := List.Subset.refl _
  tickets _ h := nomatch h
  excused _ h := nomatch h
  collected _ h := nomatch h

theorem Sound.emit (hs : w.Sound inUse stack) {e : MemoEvent}
    (he : ∀ fault ∈ e.faults, w.Excuses fault) : (w.emit e).Sound inUse stack := by
  have hsub : w.events ⊆ (w.emit e).events := List.subset_cons_self e w.events
  refine ⟨hs.session, hs.covers, hs.tickets, ?_,
    fun fault h => (hs.collected fault h).mono hsub rfl⟩
  intro fault hmem
  rcases List.mem_append.mp hmem with h | h
  · exact (he fault h).mono hsub rfl
  · exact (hs.excused fault h).mono hsub rfl

/-- An event without faults changes nothing. -/
theorem Sound.note (hs : w.Sound inUse stack) (e : MemoEvent) (he : e.faults = []) :
    (w.emit e).Sound inUse stack := by
  refine hs.emit fun fault h => ?_
  rw [he] at h
  cases h

theorem Sound.tell (hs : w.Sound inUse stack) (messages : List Message) :
    (w.tell messages).Sound inUse stack := by
  have hsub : w.events ⊆ (w.tell messages).events := List.subset_append_right _ _
  refine ⟨hs.session, hs.covers, hs.tickets, ?_,
    fun fault h => (hs.collected fault h).mono hsub rfl⟩
  intro fault hmem
  rw [faults, Scene.tell, List.flatMap_append, List.mem_append] at hmem
  rcases hmem with h | h
  · obtain ⟨event, hevent, hfault⟩ := List.mem_flatMap.mp h
    obtain ⟨message, -, rfl⟩ := List.mem_map.mp (List.mem_reverse.mp hevent)
    cases hfault
  · exact (hs.excused fault h).mono hsub rfl

theorem Sound.setSession (hs : w.Sound inUse stack) {session : MemoSession}
    (hsession : session.Sound inUse) (hlater : w.session.memo.Later session.memo) :
    ({ w with session } : Scene).Sound inUse stack where
  session := hsession
  covers := hs.covers
  tickets frame h := (hs.tickets frame h).later hlater
  excused fault h := (hs.excused fault h).mono (List.Subset.refl _) hlater.initial
  collected fault h := (hs.collected fault h).mono (List.Subset.refl _) hlater.initial

/-- Neither the scripts that are left nor the number of computations matter. -/
theorem Sound.count (hs : w.Sound inUse stack) (scripts : Scripts) (calls : Nat) :
    ({ w with session := { w.session with scripts, calls } } : Scene).Sound inUse stack :=
  hs.setSession ⟨hs.session.numbered, hs.session.distinct, hs.session.known, hs.session.pinned,
    hs.session.used, hs.session.memo⟩ (.refl _)

/-- The frames below a frame are sound without it. -/
theorem Sound.tail {top : Frame} (hs : w.Sound inUse (top :: stack)) : w.Sound inUse stack where
  session := hs.session
  covers := by
    have hsub : stack <:+ top :: stack := List.suffix_cons top stack
    exact List.Subset.trans (hsub.sublist.filterMap Frame.key?).subset hs.covers
  tickets frame h := hs.tickets frame (List.mem_cons_of_mem top h)
  excused := hs.excused
  collected fault h := hs.collected fault (List.mem_append_right _ h)

theorem Sound.push {top : Frame} (hs : w.Sound inUse stack)
    (hkey : ∀ key, top.key? = some key → key ∈ inUse) (hticket : top.Ticketed w.session.memo)
    (hfaults : ∀ fault ∈ top.faults, w.Excuses fault) : w.Sound inUse (top :: stack) where
  session := hs.session
  covers := by
    intro key hmem
    obtain ⟨frame, hframe, heq⟩ := List.mem_filterMap.mp hmem
    rcases List.mem_cons.mp hframe with rfl | hframe
    · exact hkey key heq
    · exact hs.covers (List.mem_filterMap.mpr ⟨frame, hframe, heq⟩)
  tickets := List.forall_mem_cons.mpr ⟨hticket, hs.tickets⟩
  excused := hs.excused
  collected fault h := by
    rcases List.mem_append.mp h with h | h
    · exact hfaults fault h
    · exact hs.collected fault h

theorem Sound.push_several (hs : w.Sound inUse stack) {origin : Plan MemoAction}
    {isShielded : Bool} {pending : List (Plan MemoAction)} {replies : List (Reply MemoReply)}
    (hreplies : ∀ fault ∈ Reply.faultsAll replies, w.Excuses fault) :
    w.Sound inUse (.several origin isShielded pending replies :: stack) := by
  refine hs.push ?_ trivial hreplies
  intro key h
  cases h

theorem Sound.push_computing (hs : w.Sound inUse stack) {origin : Plan MemoAction} {key : Key}
    {call : Nat} {ticket : Option Ticket} {pending : List (Plan MemoAction)} {ending : Ending}
    (hkey : key ∈ inUse)
    (hticket : (Frame.computing origin key call ticket pending ending).Ticketed w.session.memo) :
    w.Sound inUse (.computing origin key call ticket pending ending :: stack) := by
  refine hs.push ?_ hticket ?_
  · rintro _ ⟨⟩
    exact hkey
  · intro fault h
    cases h

/-- Plans may collect a reply. -/
theorem Sound.collect {origin : Plan MemoAction} {isShielded : Bool}
    {pending : List (Plan MemoAction)} {replies : List (Reply MemoReply)} {reply : Reply MemoReply}
    (hs : w.Sound inUse (.several origin isShielded pending replies :: stack))
    (hreply : ∀ fault ∈ reply.faults, w.Excuses fault) :
    w.Sound inUse (.several origin isShielded pending (reply :: replies) :: stack) := by
  refine hs.tail.push_several fun fault h => ?_
  rcases List.mem_append.mp h with h | h
  · exact hreply fault h
  · exact hs.collected fault (List.mem_append_left _ h)

/-- It does not matter which plans are still to come. -/
theorem Sound.pending_several {origin : Plan MemoAction} {isShielded : Bool}
    {pending pending' : List (Plan MemoAction)} {replies : List (Reply MemoReply)}
    (hs : w.Sound inUse (.several origin isShielded pending replies :: stack)) :
    w.Sound inUse (.several origin isShielded pending' replies :: stack) :=
  hs.tail.push_several fun fault h => hs.collected fault (List.mem_append_left _ h)

/-- It does not matter which plans of a computation are still to come. -/
theorem Sound.pending_computing {origin : Plan MemoAction} {key : Key} {call : Nat}
    {ticket : Option Ticket} {pending pending' : List (Plan MemoAction)} {ending : Ending}
    (hs : w.Sound inUse (.computing origin key call ticket pending ending :: stack)) :
    w.Sound inUse (.computing origin key call ticket pending' ending :: stack) := by
  have hticket := hs.tickets _ List.mem_cons_self
  exact hs.tail.push_computing (hs.covers List.mem_cons_self) hticket

/-- A living key may come to be in use. -/
theorem Sound.use (hs : w.Sound inUse stack) {key : Key} (hkey : key ∈ w.session.keys.keys)
    (hlive : w.session.isLive inUse key = true) : w.Sound (key :: inUse) stack :=
  { hs with
    session := hs.session.use hkey hlive
    covers := List.subset_cons_of_subset key hs.covers }

end Scene

/-- What is under way in a phase. -/
def Phase.stack : Phase → List Frame
  | .running top rest => top :: rest
  | .finished _ => []

/-- The faults in the replies of a phase. -/
def Phase.faults : Phase → List Fault
  | .running top rest => (top :: rest).flatMap Frame.faults
  | .finished (.ok reply) => reply.faults
  | .finished (.error fault) => [fault]

namespace Machine

variable {w : Scene} {inUse : List Key} {stack rest : List Frame} {fault : Fault}
  {origin : Plan MemoAction} {key : Key} {call : Nat} {ticket : Option Ticket}

/-- The invariant of a machine. -/
structure Sound (m : Machine) : Prop where
  /-- scene and stack are sound, with the keys of all computations in use -/
  scene : m.scene.Sound (keysInUse m.phase.stack) m.phase.stack
  /-- the faults in replies have a cause outside of the memo -/
  excused : ∀ fault ∈ m.phase.faults, m.scene.Excuses fault

theorem sound_running {top : Frame} (hs : w.Sound inUse (top :: rest)) :
    (⟨w, .running top rest⟩ : Machine).Sound where
  scene := { hs with session := hs.session.sub hs.covers, covers := List.Subset.refl _ }
  excused := hs.collected

theorem sound_finished {result : Except Fault (Reply MemoReply)} (hs : w.Sound inUse stack)
    (h : ∀ fault ∈ (Phase.finished result).faults, w.Excuses fault) :
    (⟨w, .finished result⟩ : Machine).Sound where
  scene :=
    { hs with
      session := hs.session.sub (List.nil_subset _)
      covers := List.Subset.refl _
      tickets := fun _ h => nomatch h
      collected := fun _ h => nomatch h }
  excused := h

/-! ## Ends -/

theorem sound_deliver {reply : Reply MemoReply} (hs : w.Sound inUse stack)
    (hreply : ∀ fault ∈ reply.faults, w.Excuses fault) :
    (deliver origin reply w stack).Sound := by
  rcases stack with _ | ⟨_ | _, rest⟩
  · exact sound_finished hs hreply
  · exact sound_running (hs.collect hreply)
  · exact sound_running (hs.emit hreply)

/-- There is no fault in a single answer. -/
theorem sound_answer (hs : w.Sound inUse stack) (answer : MemoReply) :
    (deliver origin (.single answer) w stack).Sound := by
  apply sound_deliver hs
  intro fault h
  cases h

theorem sound_unwind (hs : w.Sound inUse stack) (hfault : w.Excuses fault) :
    (unwind fault w stack).Sound := by
  have hstruck : ∀ fault' ∈ [fault], w.Excuses fault' := by
    intro fault' h
    rwa [List.mem_singleton.mp h]
  induction stack with
  | nil => exact sound_finished hs hstruck
  | cons top rest ih =>
    rcases top with ⟨origin, _ | _, pending, replies⟩ | _
    · exact ih hs.tail
    · exact sound_running (hs.collect hstruck)
    · exact ih hs.tail

/-! ## Demands -/

/-- A ticket may be used to compute the value of a key. -/
def Usable (m : Memo String) (key : Key) (ticket : Ticket) : Prop :=
  ticket.generation = 0 ∧
    ∃ slot, m.slots[ticket.slot]? = some slot ∧ slot.key = key ∧ slot.generation = 0

/-- What a demand issues may be used. -/
theorem usable_reserve {m : Memo String} {r : Reservation String} (h : Memo.Reserves key m r)
    (t : Ticket) (houtcome : r.outcome = .ok (.vacant t)) : Usable r.memo key t := by
  cases h with
  | present position value table hcurrent hvalue houtcome' hmemo =>
    rw [houtcome'] at houtcome
    cases houtcome
  | vacant position slot table hslot hkey hgeneration houtcome' hmemo =>
    rw [houtcome'] at houtcome
    cases houtcome
    rw [hmemo]
    exact ⟨rfl, slot, hslot, hkey, hgeneration⟩
  | fresh table hnone houtcome' hmemo =>
    rw [houtcome'] at houtcome
    cases houtcome
    rw [hmemo]
    exact ⟨rfl, .vacant key, Array.getElem?_push_size, rfl, rfl⟩
  | overflowed hoversized hnone houtcome' hmemo =>
    rw [houtcome'] at houtcome
    cases houtcome

theorem sound_compute (hs : w.Sound inUse rest) (hkey : key ∈ inUse)
    (hticket : ∀ t, ticket = some t → Usable w.session.memo key t) :
    (compute origin key ticket w rest).Sound := by
  rw [compute]
  dsimp only
  split
  · next script scripts _ =>
    have hs' := (hs.count scripts (w.session.calls + 1)).note (.begun key w.session.calls) rfl
    refine sound_running (hs'.push_computing hkey ?_)
    intro t ht
    obtain ⟨hgeneration, slot, hslot, hslotkey, -⟩ := hticket t ht
    exact ⟨hgeneration, slot, hslot, hslotkey⟩
  · have hs' := ((hs.count w.session.scripts (w.session.calls + 1)).note
      (.begun key w.session.calls) rfl).note (.returned key w.session.calls) rfl
    split
    · exact sound_answer hs' _
    · next ticket =>
      obtain ⟨-, slot, hslot, rfl, hvacant⟩ := hticket ticket rfl
      have hfill := Memo.fill_eq hslot hvacant (standardValue slot.key w.session.calls)
      rw [hfill]
      exact sound_answer (hs'.setSession (hs'.session.fill hslot hvacant hkey _)
        (Memo.later_fill hfill)) _

theorem sound_enter (hs : w.Sound (key :: keysInUse rest) rest) :
    (enter origin key w rest).Sound := by
  have hkey : key ∈ key :: keysInUse rest := List.mem_cons_self
  have hknows := hs.session.knows (hs.session.used key hkey)
  obtain ⟨-, hreserves⟩ := hs.session.memo.reserve hknows (MemoSession.isLive_of_mem hkey)
  have hs' := (hs.setSession (hs.session.reserve hkey) (Memo.later_reserve _ key _)).tell
    (w.session.memo.reserve (w.session.isLive (key :: keysInUse rest)) key).messages
  have husable := usable_reserve hreserves
  rw [enter]
  dsimp only
  cases hreserves with
  | present position value table hcurrent hvalue houtcome hmemo =>
    rw [houtcome]
    exact sound_answer hs' _
  | vacant position slot table hslot hslotkey hgeneration houtcome hmemo =>
    rw [houtcome]
    apply sound_compute hs' hkey
    rintro _ ⟨⟩
    exact husable _ houtcome
  | fresh table hnone houtcome hmemo =>
    rw [houtcome]
    apply sound_compute hs' hkey
    rintro _ ⟨⟩
    exact husable _ houtcome
  | overflowed hoversized hnone houtcome hmemo =>
    rw [houtcome]
    -- nothing can be reserved, and the scene excuses that
    refine sound_unwind hs' (.inr (.inl ⟨rfl, ?_⟩))
    rw [← hoversized, Scene.tell, hmemo]

theorem sound_demand (hs : w.Sound (key :: keysInUse rest) rest) :
    (demand origin key w rest).Sound := by
  rw [demand]
  split
  · exact sound_answer hs _
  · exact sound_enter hs

theorem sound_settle (hs : w.Sound (key :: keysInUse rest) rest)
    (hticket : ∀ t, ticket = some t →
      t.generation = 0 ∧ ∃ slot, w.session.memo.slots[t.slot]? = some slot ∧ slot.key = key)
    (value : String) : (settle origin key ticket value w rest).Sound := by
  unfold settle
  split
  · exact sound_answer hs _
  · next ticket =>
    obtain ⟨position, generation⟩ := ticket
    obtain ⟨hgeneration, slot, hslot, hslotkey⟩ := hticket _ rfl
    obtain rfl : generation = 0 := hgeneration
    have hsettles := hs.session.memo.settles hslot value
    generalize w.session.memo.settle ⟨position, 0⟩ value = settlement at hsettles
    cases hsettles with
    | filled slot' earlier hslot' hgeneration' hvalue =>
      exact sound_answer (hs.setSession hs.session (.refl _)) _
    | vacant slot' hslot' hgeneration' =>
      obtain rfl := Option.some.inj (hslot.symm.trans hslot')
      have hkey : slot.key ∈ key :: keysInUse rest := by
        rw [hslotkey]
        exact List.mem_cons_self
      exact sound_answer (hs.setSession (hs.session.fill hslot hgeneration' hkey value)
        (Memo.later_fill (Memo.fill_eq hslot hgeneration' value))) _
    | outdated slot' hslot' hgeneration' => exact sound_enter (hs.tell _)

theorem sound_conclude (hs : w.Sound (key :: keysInUse rest) rest)
    (hticket : ∀ t, ticket = some t →
      t.generation = 0 ∧ ∃ slot, w.session.memo.slots[t.slot]? = some slot ∧ slot.key = key)
    (ending : Ending) : (conclude origin key call ticket w rest ending).Sound := by
  unfold conclude
  split
  · exact sound_settle (hs.note _ rfl) hticket _
  · exact sound_settle (hs.note _ rfl) hticket _
  · dsimp only
    exact sound_answer (hs.note _ rfl) _
  · next message =>
    refine sound_unwind (hs.note _ rfl) (.inr (.inr ⟨message, key, call, rfl, ?_⟩))
    exact List.mem_cons_self

/-! ## One step -/

/-- What is started keeps a machine sound, if no address is used twice. -/
theorem sound_start (hs : w.Sound (keysInUse stack) stack) {plan : Plan MemoAction}
    (hdistinct : (start w stack plan).scene.session.keys.Distinct) :
    (start w stack plan).Sound := by
  have hunheld : ∀ name, w.Excuses (.unheld name) := fun name => .inl ⟨name, rfl⟩
  have hnothing : ∀ fault ∈ Reply.faultsAll ([] : List (Reply MemoReply)), w.Excuses fault := by
    intro fault h
    cases h
  have hdemand : ∀ {origin : Plan MemoAction} {key : Key} {name : String},
      w.session.keys.key? name = some key →
      w.session.isLive (keysInUse stack) key = true → (demand origin key w stack).Sound :=
    fun hname hlive => sound_demand (hs.use (Keyring.mem_keys_of_key? hname) hlive)
  -- one case for each kind of plan, and one for each way of demanding
  unfold start at hdistinct ⊢
  split
  · exact sound_running (hs.push_several hnothing)
  · exact sound_running (hs.push_several hnothing)
  · next action =>
    have hact : (w.session.act (keysInUse stack) action).state.keys.Distinct →
        (Scene.tell (w.session.act (keysInUse stack) action).events
          { w with session := (w.session.act (keysInUse stack) action).state }).Sound
          (keysInUse stack) stack := fun hdistinct =>
      (hs.setSession (hs.session.act action hdistinct) (MemoSession.later_act ..).memo).tell _
    dsimp only at hdistinct ⊢
    cases hresult : (w.session.act (keysInUse stack) action).result with
    | error fault =>
      rw [hresult] at hdistinct
      simp only [scene_unwind] at hdistinct
      exact sound_unwind (hact hdistinct) (.inl (hs.session.act_fault hresult))
    | ok reply =>
      rw [hresult] at hdistinct
      simp only [session_deliver] at hdistinct
      exact sound_answer (hact hdistinct) _
  · split
    · exact sound_unwind hs (hunheld _)
    · next key hheld =>
      exact hdemand (Keyring.key?_of_held? hheld)
        (MemoSession.isLive_of_holds (Keyring.holds_of_held? hheld))
  · dsimp only
    split
    · exact sound_answer hs _
    · next key hkey =>
      obtain ⟨hname, hlive⟩ := Option.filter_eq_some_iff.mp hkey
      exact hdemand hname hlive
  · split
    · exact sound_unwind hs (hunheld _)
    · next key hheld =>
      -- a computation without a ticket claims no slot
      have hs' := hs.use (Keyring.mem_keys_of_held? hheld)
        (MemoSession.isLive_of_holds (Keyring.holds_of_held? hheld))
      apply sound_compute hs' List.mem_cons_self
      intro t h
      cases h

/-- Every step keeps a machine sound, if no address is used twice. -/
theorem sound_step {top : Frame} (hs : (⟨w, .running top rest⟩ : Machine).Sound)
    (hdistinct : (step w top rest).scene.session.keys.Distinct) : (step w top rest).Sound := by
  have hscene : w.Sound (keysInUse (top :: rest)) (top :: rest) := hs.scene
  rcases top with ⟨origin, isShielded, _ | ⟨plan, pending⟩, replies⟩ |
    ⟨origin, key, call, ticket, _ | ⟨plan, pending⟩, ending⟩
  · refine sound_deliver hscene.tail fun fault h => hscene.collected fault ?_
    obtain ⟨reply, hreply, hfault⟩ := Reply.mem_faultsAll.mp h
    exact List.mem_append_left _
      (Reply.mem_faultsAll.mpr ⟨reply, List.mem_reverse.mp hreply, hfault⟩)
  · have hs' : w.Sound _ (.several origin isShielded pending replies :: rest) :=
      hscene.pending_several
    exact sound_start hs' hdistinct
  · exact sound_conclude hscene.tail (hscene.tickets _ List.mem_cons_self) ending
  · have hs' : w.Sound _ (.computing origin key call ticket pending ending :: rest) :=
      hscene.pending_computing
    exact sound_start hs' hdistinct

end Machine

end Ephemera

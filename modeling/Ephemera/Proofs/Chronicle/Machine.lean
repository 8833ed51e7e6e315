import Ephemera.Proofs.Chronicle.Deed
import Ephemera.Proofs.Machine.Lifecycle
import Ephemera.Proofs.Memo.Contents

/-!
# The chronicle of a machine

A machine does deeds in the course of its steps, and the functions here say which ones. They go
through the same cases as the machine does, so every deed is put down where it is done; that no
reply to a demand is passed over is said by `Accounted`. A `Chronicle` is what was put down of a
whole run, and every run has one (`Leads.chronicle`).

The chronicle tells the truth (`Chronicle.told`): its deeds are in order, what they amount to are
the values in the memo, and every computation on the stack that is to be kept has begun with one
of them. This is shown along the machine, for one part of a step after the other.
-/

namespace Ephemera

namespace Machine

/-! ## Deeds of a step -/

/-- The deeds of an action that computes nothing. -/
def actDeeds (s : MemoSession) (inUse : List Key) : BriefAction → List Deed
  | .look name =>
    match s.keys.held? name, (s.act inUse (.look name)).result with
    | some key, .ok (.seen answer) => [.seen key answer]
    | _, _ => []
  | .forget name =>
    match s.keys.held? name, (s.act inUse (.forget name)).result with
    | some key, .ok (.flag (some true)) => [.emptied key]
    | _, _ => []
  | _ => []

/-- The deeds when a computation begins; without a ticket its value is not kept, and there
are none. -/
def computeDeeds (key : Key) (ticket : Option Ticket) (s : MemoSession) : List Deed :=
  match ticket with
  | none => []
  | some ticket =>
    .begun key s.calls ::
      match s.scripts.next? key.name with
      | some _ => []
      | none =>
        let value := standardValue key s.calls
        match s.memo.fill ticket.slot value with
        | .error _ => []
        | .ok _ => [.filled key value, .answered key value]

/-- The deeds when the memo is asked for a value or a ticket. -/
def enterDeeds (key : Key) (s : MemoSession) (rest : List Frame) : List Deed :=
  let r := s.memo.reserve (s.isLive (key :: keysInUse rest)) key
  match r.outcome with
  | .error _ => []
  | .ok (.value value) => [.answered key value]
  | .ok (.vacant ticket) => computeDeeds key (some ticket) { s with memo := r.memo }

/-- The deeds of a demand. -/
def demandDeeds (key : Key) (s : MemoSession) (rest : List Frame) : List Deed :=
  match s.memo.value? (s.isLive (key :: keysInUse rest)) key with
  | some value => [.answered key value]
  | none => enterDeeds key s rest

/-- The deeds when a value is handed in; one that comes too late is not put in. -/
def settleDeeds (key : Key) (ticket : Option Ticket) (value : String) (s : MemoSession)
    (rest : List Frame) : List Deed :=
  match ticket with
  | none => []
  | some ticket =>
    match s.memo.settle ticket value with
    | .settled answer _ =>
      match s.memo.valueAt ticket.slot with
      | some _ => [.answered key answer]
      | none => [.filled key answer, .answered key answer]
    | .outdated => enterDeeds key s rest
    | .broken _ => []

/-- The deeds when a computation ends. -/
def concludeDeeds (key : Key) (call : Nat) (ticket : Option Ticket) (s : MemoSession)
    (rest : List Frame) : Ending → List Deed
  | .value value => settleDeeds key ticket value s rest
  | .standard => settleDeeds key ticket (standardValue key call) s rest
  | .fail message =>
    match ticket with
    | none => []
    | some _ => [.failed key call message]
  | .giveUp message =>
    match ticket with
    | none => []
    | some _ => [.gaveUp key call message]

/-- The deeds when a plan is started. -/
def startDeeds (s : MemoSession) (stack : List Frame) : Plan MemoAction → List Deed
  | .apart _ => []
  | .together _ => []
  | .act (.brief action) => actDeeds s (keysInUse stack) action
  | .act (.demand .held name) =>
    match s.keys.held? name with
    | none => []
    | some key => demandDeeds key s stack
  | .act (.demand .handle name) =>
    match (s.keys.key? name).filter (s.isLive (keysInUse stack)) with
    | none => []
    | some key => demandDeeds key s stack
  | .act (.demand .unkept name) =>
    match s.keys.held? name with
    | none => []
    | some key => computeDeeds key none s

/-- The deeds of a step. -/
def stepDeeds (s : MemoSession) (top : Frame) (rest : List Frame) : List Deed :=
  match top with
  | .several _ _ [] _ => []
  | .several origin isShielded (plan :: pending) replies =>
    startDeeds s (.several origin isShielded pending replies :: rest) plan
  | .computing _ key call ticket [] ending => concludeDeeds key call ticket s rest ending
  | .computing origin key call ticket (plan :: pending) ending =>
    startDeeds s (.computing origin key call ticket pending ending :: rest) plan

/-! ## Deeds and replies -/

/-- What is put down when a demand for a key is met, or goes on, or fails: the last deed says which
of these it was, and which reply the stack below gets. Only a fault may come without a deed. -/
inductive Accounted (origin : Plan MemoAction) (key : Key) (stack : List Frame) :
    List Deed → Machine → Prop where
  | answered (earlier : List Deed) (w : Scene) (value : String) :
      Accounted origin key stack (earlier ++ [.answered key value])
        (deliver origin (.single (.value value)) w stack)
  | begun (w : Scene) (call : Nat) (ticket : Ticket) (script : Script) :
      Accounted origin key stack [.begun key call]
        ⟨w, .running (.computing origin key call (some ticket) script.plans script.ending) stack⟩
  | failed (w : Scene) (call : Nat) (message : String) :
      Accounted origin key stack [.failed key call message]
        (deliver origin (.single (.refused (.failed message))) w stack)
  | gaveUp (w : Scene) (call : Nat) (message : String) :
      Accounted origin key stack [.gaveUp key call message] (unwind (.raised message) w stack)
  | struck (deeds : List Deed) (w : Scene) (fault : Fault) :
      Accounted origin key stack deeds (unwind fault w stack)

section

variable (origin : Plan MemoAction) (key : Key) (ticket : Ticket) (w : Scene) (rest : List Frame)

theorem accounted_compute :
    Accounted origin key rest (computeDeeds key (some ticket) w.session)
      (compute origin key (some ticket) w rest) := by
  rw [computeDeeds, compute]
  dsimp only
  cases w.session.scripts.next? key.name with
  | some next => exact .begun _ _ _ next.1
  | none =>
    dsimp only
    cases w.session.memo.fill ticket.slot (standardValue key w.session.calls) with
    | error fault => exact .struck _ _ fault
    | ok memo => exact .answered [_, _] _ _

theorem accounted_enter :
    Accounted origin key rest (enterDeeds key w.session rest) (enter origin key w rest) := by
  rw [enterDeeds, enter]
  dsimp only
  generalize w.session.memo.reserve (w.session.isLive (key :: keysInUse rest)) key = r
  cases r.outcome with
  | error fault => exact .struck _ _ fault
  | ok access =>
    cases access with
    | value value => exact .answered [] _ value
    | vacant ticket =>
      exact accounted_compute origin key ticket
        (Scene.tell r.messages { w with session := { w.session with memo := r.memo } }) rest

/-- Every demand is accounted for. -/
theorem accounted_demand :
    Accounted origin key rest (demandDeeds key w.session rest) (demand origin key w rest) := by
  rw [demandDeeds, demand]
  cases w.session.memo.value? (w.session.isLive (key :: keysInUse rest)) key with
  | some value => exact .answered [] w value
  | none => exact accounted_enter origin key w rest

theorem accounted_settle (value : String) :
    Accounted origin key rest (settleDeeds key (some ticket) value w.session rest)
      (settle origin key (some ticket) value w rest) := by
  rw [settleDeeds, settle]
  dsimp only
  cases w.session.memo.settle ticket value with
  | settled answer memo =>
    cases w.session.memo.valueAt ticket.slot with
    | some earlier => exact .answered [] _ answer
    | none => exact .answered [_] _ answer
  | outdated => exact accounted_enter origin key (w.tell _) rest
  | broken fault => exact .struck [] w fault

/-- So is the end of every computation whose value is to be kept. -/
theorem accounted_conclude (call : Nat) (ending : Ending) :
    Accounted origin key rest (concludeDeeds key call (some ticket) w.session rest ending)
      (conclude origin key call (some ticket) w rest ending) := by
  cases ending with
  | value value => exact accounted_settle origin key ticket (w.emit _) rest value
  | standard => exact accounted_settle origin key ticket (w.emit _) rest _
  | fail message => exact .failed (w.emit _) call message
  | giveUp message => exact .gaveUp (w.emit _) call message

end

/-! ## Deeds of a run -/

/-- What a caller can bring about, with all deeds that were done on the way. -/
inductive Chronicle (request : Nat) (scripts : Scripts) (keeping : Bool) :
    List Deed → Machine → Prop where
  | idle : Chronicle request scripts keeping [] (idle request scripts keeping)
  | step {deeds : List Deed} {w : Scene} {top : Frame} {rest : List Frame}
      (h : Chronicle request scripts keeping deeds ⟨w, .running top rest⟩) :
      Chronicle request scripts keeping (deeds ++ stepDeeds w.session top rest) (step w top rest)
  | start {deeds : List Deed} {w : Scene} {result : Except Fault (Reply MemoReply)}
      (h : Chronicle request scripts keeping deeds ⟨w, .finished result⟩)
      (plan : Plan MemoAction) :
      Chronicle request scripts keeping (deeds ++ startDeeds w.session [] plan)
        (start ⟨w.session, []⟩ [] plan)

variable {request : Nat} {scripts : Scripts} {keeping : Bool} {deeds : List Deed} {m : Machine}

/-- A chronicle is one of a run. -/
theorem Chronicle.leads (h : Chronicle request scripts keeping deeds m) :
    Leads (Machine.idle request scripts keeping) m := by
  induction h with
  | idle => exact .refl
  | step h ih => exact ih.tail (.step (.next _ _ _))
  | start h plan ih => exact ih.tail (.start _ _ plan)

/-- Every run has its chronicle. -/
theorem Leads.chronicle (h : Leads (idle request scripts keeping) m) :
    ∃ deeds, Chronicle request scripts keeping deeds m := by
  induction h with
  | refl => exact ⟨[], .idle⟩
  | tail _ hnext ih =>
    obtain ⟨deeds, hchronicle⟩ := ih
    cases hnext with
    | step h =>
      cases h with
      | next w top rest => exact ⟨_, hchronicle.step⟩
    | start w result plan => exact ⟨_, hchronicle.start plan⟩

/-- The machine after so many steps, or fewer if all is done by then, with the deeds up to there. -/
def advance : Nat → List Deed × Machine → List Deed × Machine
  | n + 1, (deeds, ⟨w, .running top rest⟩) =>
    advance n (deeds ++ stepDeeds w.session top rest, step w top rest)
  | _, c => c

theorem Chronicle.advance {c : List Deed × Machine}
    (h : Chronicle request scripts keeping c.1 c.2) (n : Nat) :
    Chronicle request scripts keeping (Machine.advance n c).1 (Machine.advance n c).2 := by
  induction n generalizing c with
  | zero => exact h
  | succ n ih =>
    obtain ⟨deeds, w, top | result⟩ := c
    · exact ih h.step
    · exact h

/-- All states that a chronicle comes through are sound, if no address is used twice. -/
theorem Chronicle.sound (h : Chronicle request scripts keeping deeds m)
    (hdistinct : m.scene.session.keys.Distinct) : m.Sound :=
  h.leads.sound (sound_idle request scripts keeping) hdistinct

/-! ## The book of a chronicle -/

/-- The computation of a frame whose value is to be kept. -/
def pendingCall? : Frame → Option (Key × Nat)
  | .computing _ key call (some _) _ _ => some (key, call)
  | _ => none

/-- The computations on a stack whose values are to be kept. -/
def pendingCalls (stack : List Frame) : List (Key × Nat) :=
  stack.filterMap pendingCall?

/-- A book is about a memo and a stack: it has the values of the one, and the computations on the
other have begun. None has begun unless the memo can get its chains. -/
structure Fits (b : Book) (memo : Memo String) (stack : List Frame) : Prop where
  /-- the values in the memo are those of the book -/
  values : memo.valueOf = b.values
  /-- the computations on the stack are on the book -/
  begun : pendingCalls stack ⊆ b.begun
  /-- there are computations on the book only if chains can be allocated -/
  allocated : ∀ c ∈ b.begun, isOversized memo.table.initial = false

/-- Deeds that are in order, after which the book is about the machine. -/
structure Told (b : Book) (deeds : List Deed) (m : Machine) : Prop where
  /-- the deeds are in order -/
  allows : b.AllowsAll deeds
  /-- the book is about the machine -/
  fits : Fits (b.after deeds) m.scene.session.memo m.phase.stack

variable {b : Book} {d : Deed} {w : Scene} {inUse : List Key} {stack rest : List Frame}
  {origin : Plan MemoAction} {key : Key} {call : Nat} {ticket : Option Ticket} {value : String}

theorem Told.cons (h : b.Allows d) (hrest : Told (b.enter d) deeds m) : Told b (d :: deeds) m :=
  ⟨⟨h, hrest.allows⟩, hrest.fits⟩

/-! ## Along the machine -/

theorem told_deliver {reply : Reply MemoReply} (hfits : Fits b w.session.memo stack) :
    Told b [] (deliver origin reply w stack) := by
  refine ⟨trivial, ?_⟩
  rcases stack with _ | ⟨_ | ⟨_, _, _, _ | _⟩, rest⟩
  all_goals exact ⟨hfits.values, hfits.begun, hfits.allocated⟩

theorem told_answered (hfits : Fits b w.session.memo stack) (hvalue : b.values key = some value) :
    Told b [.answered key value] (deliver origin (.single (.value value)) w stack) :=
  .cons hvalue (told_deliver hfits)

theorem told_unwind {fault : Fault} (hfits : Fits b w.session.memo stack) :
    Told b [] (unwind fault w stack) := by
  refine ⟨trivial, ?_⟩
  induction stack with
  | nil => exact ⟨hfits.values, hfits.begun, hfits.allocated⟩
  | cons top rest ih =>
    rcases top with ⟨_, _ | _, _, _⟩ | ⟨_, _, _, _ | _, _, _⟩
    · exact ih ⟨hfits.values, hfits.begun, hfits.allocated⟩
    · exact ⟨hfits.values, hfits.begun, hfits.allocated⟩
    · exact ih ⟨hfits.values, hfits.begun, hfits.allocated⟩
    · exact ih ⟨hfits.values, List.subset_of_cons_subset hfits.begun, hfits.allocated⟩

/-- A slot that was never filled is the place for the value of a key without one. -/
theorem value_eq_none (hs : w.Sound inUse stack) (hfits : Fits b w.session.memo stack)
    {position : Nat} {slot : Slot String} (hslot : w.session.memo.slots[position]? = some slot)
    (hgeneration : slot.generation = 0) : b.values slot.key = none := by
  rw [← hfits.values, hs.session.memo.valueOf_of_slot hslot rfl (by omega)]
  exact (hs.session.memo.proper position slot hslot).value_eq_none (by omega)

theorem told_filled (hs : w.Sound inUse stack) (hfits : Fits b w.session.memo stack)
    {position : Nat} {slot : Slot String} (hslot : w.session.memo.slots[position]? = some slot)
    (hgeneration : slot.generation = 0) :
    Told b [.filled slot.key value, .answered slot.key value]
      (deliver origin (.single (.value value))
        { w with
          session :=
            { w.session with
              memo :=
                { w.session.memo with
                  slots := w.session.memo.slots.setIfInBounds position
                    (Memo.filledWith slot value) } } } stack) := by
  refine .cons (value_eq_none hs hfits hslot hgeneration)
    (told_answered ⟨?_, hfits.begun, hfits.allocated⟩ (Function.update_self ..))
  rw [Book.enter, ← hfits.values]
  exact (hs.session.memo.contents_fill hslot hgeneration value).1

theorem told_compute (hs : w.Sound inUse rest) (hfits : Fits b w.session.memo rest)
    (hticket : ∀ t, ticket = some t → Usable w.session.memo key t ∧
      isOversized w.session.memo.table.initial = false) :
    Told b (computeDeeds key ticket w.session) (compute origin key ticket w rest) := by
  cases ticket with
  | none =>
    rw [computeDeeds, compute]
    dsimp only
    split
    · exact ⟨trivial, hfits.values, hfits.begun, hfits.allocated⟩
    · exact told_deliver hfits
  | some t =>
    obtain ⟨⟨-, slot, hslot, rfl, hgeneration⟩, hallocated⟩ := hticket t rfl
    -- a computation begins, and that is all that has changed
    have hbook : Fits (b.enter (.begun slot.key w.session.calls)) w.session.memo rest :=
      ⟨hfits.values, List.subset_cons_of_subset _ hfits.begun, fun _ _ => hallocated⟩
    rw [computeDeeds, compute]
    dsimp only
    refine .cons (value_eq_none hs hfits hslot hgeneration) ?_
    cases w.session.scripts.next? slot.key.name with
    | some next =>
      exact ⟨trivial, hbook.values, List.cons_subset_cons _ hfits.begun, hbook.allocated⟩
    | none =>
      have hs' := ((hs.count w.session.scripts (w.session.calls + 1)).note
        (.begun slot.key w.session.calls) rfl).note (.returned slot.key w.session.calls) rfl
      dsimp only
      rw [Memo.fill_eq hslot hgeneration]
      exact told_filled hs' hbook hslot hgeneration

theorem told_enter (hs : w.Sound (key :: keysInUse rest) rest)
    (hfits : Fits b w.session.memo rest) :
    Told b (enterDeeds key w.session rest) (enter origin key w rest) := by
  have hkey : key ∈ key :: keysInUse rest := List.mem_cons_self
  obtain ⟨hmemo, hreserves⟩ := hs.session.memo.reserve (hs.session.knows (hs.session.used key hkey))
    (MemoSession.isLive_of_mem hkey)
  have hlater := Memo.later_reserve (w.session.isLive (key :: keysInUse rest)) key w.session.memo
  have hs' := (hs.setSession (hs.session.reserve hkey) hlater).tell
    (w.session.memo.reserve (w.session.isLive (key :: keysInUse rest)) key).messages
  have hfits' : Fits b _ rest :=
    ⟨(hreserves.contents hs.session.memo hmemo).1.trans hfits.values, hfits.begun,
      fun c hmem => hlater.initial ▸ hfits.allocated c hmem⟩
  -- what a reservation hands out can be filled, and its chains are there
  have husable := fun t houtcome =>
    And.intro (usable_reserve hreserves t houtcome)
      (hlater.initial ▸ hs.session.memo.fits_of_reserve houtcome)
  rw [enterDeeds, enter]
  dsimp only
  cases hreserves with
  | present position value table hcurrent hvalue houtcome hmemo =>
    rw [houtcome]
    -- the value that is handed out is the one that the book has
    refine told_answered hfits' ?_
    rw [← hfits.values, hs.session.memo.valueOf_of_current hcurrent, hvalue]
  | vacant position slot table hslot hslotkey hgeneration houtcome hmemo =>
    rw [houtcome]
    apply told_compute hs' hfits'
    rintro _ ⟨⟩
    exact husable _ houtcome
  | fresh table hnone houtcome hmemo =>
    rw [houtcome]
    apply told_compute hs' hfits'
    rintro _ ⟨⟩
    exact husable _ houtcome
  | overflowed hoversized hnone houtcome hmemo =>
    rw [houtcome]
    exact told_unwind hfits'

/-- A look at the memo is a look at the book. -/
theorem look_eq {s : MemoSession} (hs : s.Sound inUse) (hfits : Fits b s.memo stack)
    (hkey : key ∈ s.keys.keys) (hlive : s.isLive inUse key = true) :
    s.memo.value? (s.isLive inUse) key = b.values key := by
  rw [hs.memo.value?_eq (hs.knows hkey) hlive, hfits.values]

theorem told_demand (hs : w.Sound (key :: keysInUse rest) rest)
    (hfits : Fits b w.session.memo rest) :
    Told b (demandDeeds key w.session rest) (demand origin key w rest) := by
  have hkey : key ∈ key :: keysInUse rest := List.mem_cons_self
  have hlook := look_eq hs.session hfits (hs.session.used key hkey) (MemoSession.isLive_of_mem hkey)
  rw [demandDeeds, demand, hlook]
  cases hvalue : b.values key with
  | some value => exact told_answered hfits hvalue
  | none => exact told_enter hs hfits

theorem told_settle (hs : w.Sound (key :: keysInUse rest) rest)
    (hfits : Fits b w.session.memo rest) (hticket : ∀ t, ticket = some t →
      t.generation = 0 ∧ ∃ slot, w.session.memo.slots[t.slot]? = some slot ∧ slot.key = key)
    (value : String) :
    Told b (settleDeeds key ticket value w.session rest)
      (settle origin key ticket value w rest) := by
  cases ticket with
  | none => exact told_deliver hfits
  | some t =>
    obtain ⟨position, generation⟩ := t
    obtain ⟨hgeneration, slot, hslot, rfl⟩ := hticket _ rfl
    obtain rfl : generation = 0 := hgeneration
    have hsettles := hs.session.memo.settles hslot value
    rw [settleDeeds, settle, Memo.valueAt, hslot, Option.bind_some]
    dsimp only
    -- what settling does is decided by the stage of the slot, not by the ticket
    generalize w.session.memo.settle ⟨position, 0⟩ value = settlement at hsettles
    cases hsettles with
    | filled slot' earlier hslot' hgeneration' hvalue =>
      obtain rfl := Option.some.inj (hslot.symm.trans hslot')
      rw [hvalue]
      refine told_answered hfits ?_
      rw [← hfits.values, hs.session.memo.valueOf_of_slot hslot rfl (by omega), hvalue]
    | vacant slot' hslot' hgeneration' =>
      obtain rfl := Option.some.inj (hslot.symm.trans hslot')
      rw [(hs.session.memo.proper position slot hslot).value_eq_none (by omega)]
      exact told_filled hs hfits hslot hgeneration'
    | outdated slot' hslot' hgeneration' => exact told_enter (hs.tell _) hfits

theorem told_conclude (hs : w.Sound (key :: keysInUse rest) rest)
    (hfits : Fits b w.session.memo rest) (hticket : ∀ t, ticket = some t →
      t.generation = 0 ∧ ∃ slot, w.session.memo.slots[t.slot]? = some slot ∧ slot.key = key)
    (hbegun : ∀ t, ticket = some t → (key, call) ∈ b.begun) (ending : Ending) :
    Told b (concludeDeeds key call ticket w.session rest ending)
      (conclude origin key call ticket w rest ending) := by
  cases ending with
  | value value => exact told_settle (hs.note (.returned key call) rfl) hfits hticket value
  | standard => exact told_settle (hs.note (.returned key call) rfl) hfits hticket _
  | fail message =>
    cases ticket with
    | none => exact told_deliver hfits
    | some t => exact .cons (hbegun t rfl) (told_deliver hfits)
  | giveUp message =>
    cases ticket with
    | none => exact told_unwind hfits
    | some t => exact .cons (hbegun t rfl) (told_unwind hfits)

/-- Taking the value of a living key away is a deed if there is one. -/
theorem told_forget {s : MemoSession} (hs : s.Sound inUse) (hfits : Fits b s.memo stack)
    (hkey : key ∈ s.keys.keys) (hlive : s.isLive inUse key = true) :
    let c := s.memo.forget (s.isLive inUse) key
    (c.outcome = .ok true ∧ b.Allows (.emptied key) ∧
      Fits (b.enter (.emptied key)) c.memo stack) ∨
        c.outcome = .ok false ∧ Fits b c.memo stack := by
  intro c
  obtain ⟨hmemo, hforgets⟩ := hs.memo.forget (hs.knows hkey) hlive
  have hallocated : ∀ call ∈ b.begun, isOversized c.memo.table.initial = false := fun call hmem =>
    (Memo.later_forget (s.isLive inUse) key s.memo).initial ▸ hfits.allocated call hmem
  rcases hforgets.contents hs.memo hmemo with
    ⟨value, hvalue, houtcome, hvalues, -⟩ | ⟨-, houtcome, hvalues, -⟩
  · rw [hfits.values] at hvalue hvalues
    exact .inl ⟨houtcome, Option.ne_none_iff_exists'.mpr ⟨value, hvalue⟩, hvalues, hfits.begun,
      hallocated⟩
  · exact .inr ⟨houtcome, hvalues.trans hfits.values, hfits.begun, hallocated⟩

/-- What a caller does without computing anything is told. -/
theorem told_act {s : MemoSession} (hs : s.Sound inUse) (hfits : Fits b s.memo stack)
    (action : BriefAction) :
    b.AllowsAll (actDeeds s inUse action) ∧
      Fits (b.after (actDeeds s inUse action)) (s.act inUse action).state.memo stack := by
  cases action with
  | look name =>
    rw [actDeeds, MemoSession.act]
    cases hheld : s.keys.held? name with
    | none => exact ⟨trivial, hfits⟩
    | some key =>
      have hlook := look_eq hs hfits (Keyring.mem_keys_of_held? hheld)
        (MemoSession.isLive_of_holds (Keyring.holds_of_held? hheld))
      exact ⟨⟨hlook.symm, trivial⟩, hfits⟩
  | forget name =>
    rw [actDeeds, MemoSession.act]
    cases hheld : s.keys.held? name with
    | none => exact ⟨trivial, hfits⟩
    | some key =>
      have hkey := Keyring.mem_keys_of_held? hheld
      have hholds := Keyring.holds_of_held? hheld
      dsimp only
      -- with values that keep their keys, the key is pinned before its value goes
      by_cases hkeeping : s.keeping = true
      · rw [if_pos hkeeping]
        obtain ⟨houtcome, hallows, hfits'⟩ | ⟨houtcome, hfits'⟩ :=
          told_forget (hs.pin hkey (MemoSession.isLive_of_holds hholds)) hfits hkey
            (MemoSession.isLive_of_holds hholds)
        all_goals rw [houtcome]
        · exact ⟨⟨hallows, trivial⟩, hfits'⟩
        · exact ⟨trivial, hfits'⟩
      · rw [if_neg hkeeping]
        obtain ⟨houtcome, hallows, hfits'⟩ | ⟨houtcome, hfits'⟩ :=
          told_forget hs hfits hkey (MemoSession.isLive_of_holds hholds)
        all_goals rw [houtcome]
        · exact ⟨⟨hallows, trivial⟩, hfits'⟩
        · exact ⟨trivial, hfits'⟩
  | key action | count | isEmpty | capacity | describe isExpanded => exact ⟨trivial, hfits⟩

/-! ## One step and all of them -/

theorem told_start {plan : Plan MemoAction} (hs : w.Sound (keysInUse stack) stack)
    (hfits : Fits b w.session.memo stack) :
    Told b (startDeeds w.session stack plan) (start w stack plan) := by
  have hdemand : ∀ {origin : Plan MemoAction} {key : Key} {name : String},
      w.session.keys.key? name = some key → w.session.isLive (keysInUse stack) key = true →
        Told b (demandDeeds key w.session stack) (demand origin key w stack) :=
    fun hname hlive => told_demand (hs.use (Keyring.mem_keys_of_key? hname) hlive) hfits
  -- a demand by name and one by handle go the same way, once the key is found
  rcases plan with (action | ⟨_ | _ | _, name⟩) | plans | plans
  · obtain ⟨hallows, hfits'⟩ := told_act hs.session hfits action
    rw [startDeeds, start]
    cases (w.session.act (keysInUse stack) action).result with
    | error fault => exact ⟨hallows, (told_unwind hfits').fits⟩
    | ok reply => exact ⟨hallows, (told_deliver hfits').fits⟩
  · rw [startDeeds, start]
    cases hheld : w.session.keys.held? name with
    | none => exact told_unwind hfits
    | some key =>
      exact hdemand (Keyring.key?_of_held? hheld)
        (MemoSession.isLive_of_holds (Keyring.holds_of_held? hheld))
  · rw [startDeeds, start]
    cases hfound : (w.session.keys.key? name).filter (w.session.isLive (keysInUse stack)) with
    | none => exact told_deliver hfits
    | some key =>
      obtain ⟨hname, hlive⟩ := Option.filter_eq_some_iff.mp hfound
      exact hdemand hname hlive
  · rw [startDeeds, start]
    cases hheld : w.session.keys.held? name with
    | none => exact told_unwind hfits
    | some key =>
      -- what is not kept has no ticket, and so nothing is filled in for it
      refine told_compute (hs.use (Keyring.mem_keys_of_held? hheld)
        (MemoSession.isLive_of_holds (Keyring.holds_of_held? hheld))) hfits ?_
      intro t h
      cases h
  · exact ⟨trivial, hfits.values, hfits.begun, hfits.allocated⟩
  · exact ⟨trivial, hfits.values, hfits.begun, hfits.allocated⟩

/-- A book about a stack is about what is below the top. -/
theorem Fits.tail {memo : Memo String} {top : Frame} (hfits : Fits b memo (top :: rest)) :
    Fits b memo rest where
  values := hfits.values
  begun :=
    List.Subset.trans ((List.sublist_cons_self top rest).filterMap pendingCall?).subset hfits.begun
  allocated := hfits.allocated

theorem told_step {top : Frame} (hs : (⟨w, .running top rest⟩ : Machine).Sound)
    (hfits : Fits b w.session.memo (top :: rest)) :
    Told b (stepDeeds w.session top rest) (step w top rest) := by
  have hscene : w.Sound (keysInUse (top :: rest)) (top :: rest) := hs.scene
  rcases top with ⟨origin, isShielded, _ | ⟨plan, pending⟩, replies⟩ |
    ⟨origin, key, call, ticket, _ | ⟨plan, pending⟩, ending⟩
  · exact told_deliver hfits.tail
  · have hs' : w.Sound _ (.several origin isShielded pending replies :: rest) :=
      hscene.pending_several
    exact told_start hs' ⟨hfits.values, hfits.begun, hfits.allocated⟩
  · refine told_conclude hscene.tail hfits.tail (hscene.tickets _ List.mem_cons_self) ?_ ending
    rintro t rfl
    exact hfits.begun List.mem_cons_self
  · have hs' : w.Sound _ (.computing origin key call ticket pending ending :: rest) :=
      hscene.pending_computing
    refine told_start hs' ⟨hfits.values, ?_, hfits.allocated⟩
    cases ticket with
    | none => exact hfits.begun
    | some t => exact hfits.begun

/-- A chronicle is in order, and its book is about the machine. No address may be used twice. -/
theorem Chronicle.told (h : Chronicle request scripts keeping deeds m)
    (hdistinct : m.scene.session.keys.Distinct) : Told .empty deeds m := by
  -- deeds are told from where those before them have led to
  have happend : ∀ {before after : List Deed} {m : Machine}, Book.empty.AllowsAll before →
      Told (Book.empty.after before) after m → Told .empty (before ++ after) m := by
    intro before after m hallows htold
    refine ⟨Book.allowsAll_append.mpr ⟨hallows, htold.allows⟩, ?_⟩
    rw [Book.after_append]
    exact htold.fits
  induction h with
  | idle => exact ⟨trivial, rfl, List.nil_subset _, fun _ h => nomatch h⟩
  | step h ih =>
    have hdistinct' := hdistinct.of_isPrefix (later_step _ _ _).keys
    have htold := ih hdistinct'
    exact happend htold.allows (told_step (h.sound hdistinct') htold.fits)
  | start h plan ih =>
    have hdistinct' := hdistinct.of_isPrefix (later_start _ [] plan).keys
    have htold := ih hdistinct'
    have hfresh := Scene.sound_fresh (h.sound hdistinct').scene.session
    exact happend htold.allows (told_start hfresh htold.fits)

end Machine

end Ephemera

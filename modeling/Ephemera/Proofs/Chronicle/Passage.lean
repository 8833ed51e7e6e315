import Ephemera.Proofs.Chronicle.Machine
import Ephemera.Proofs.Ledger.Refinement

/-!
# What a step can do

Whatever a demand goes through, there are only two things that come of it: the stack that waits for
it goes on with a result, or a computation begins on top of this stack, with a script that was
taken off its list. `Proceeds` says so, and what it means for the session: only the memo, the
scripts and the number of computations can be different afterwards. A plan that is started, be it a
demand or not, is taken apart in the same way by `Opens`, and a step by `Moves`. What holds of every
run is derived from these.

`Attested` is about the slots that a key is done with: none comes to be so without a deed that
says the value of its key was taken away.
-/

namespace Ephemera

/-- A ticket tells the generation that its slot has now. -/
def Ticket.IsCurrent {ν : Type} (m : Memo ν) (t : Ticket) : Prop :=
  ∀ slot, m.slots[t.slot]? = some slot → slot.generation = t.generation

theorem Memo.isCurrent_reserve {ν : Type} {live : Key → Bool} {key : Key} {m : Memo ν} {t : Ticket}
    (h : (m.reserve live key).outcome = .ok (.vacant t)) :
    t.IsCurrent (m.reserve live key).memo := by
  rw [reserve] at h ⊢
  dsimp only at h ⊢
  split at h
  · cases h
  · next entry _ =>
    dsimp only at h ⊢
    generalize (if entry.fresh = true then m.slots.push (.vacant key) else m.slots) = slots at h ⊢
    intro slot hslot
    split at h
    · next hnone =>
      cases h
      cases hnone.symm.trans hslot
    · next slot' hslot' =>
      split at h
      · cases h
      · cases h
        obtain rfl := Option.some.inj (hslot'.symm.trans hslot)
        rfl

/-- The next plan of a frame, and the frame that waits for its reply. -/
def Frame.take? : Frame → Option (Plan MemoAction × Frame)
  | several origin isShielded (plan :: pending) replies =>
    some (plan, several origin isShielded pending replies)
  | computing origin key call ticket (plan :: pending) ending =>
    some (plan, computing origin key call ticket pending ending)
  | _ => none

namespace Machine

/-! ## Slots that are done with -/

/-- Every slot that has come to be done with is attested by a deed. -/
def Attested (m m' : Memo String) (deeds : List Deed) : Prop :=
  ∀ (position : Nat) (slot : Slot String), m'.slots[position]? = some slot →
    slot.generation = 2 → m.slots[position]? = some slot ∨ .emptied slot.key ∈ deeds

section

variable {m m' m'' : Memo String} {deeds deeds' : List Deed}

theorem Attested.refl (m : Memo String) (deeds : List Deed) : Attested m m deeds :=
  fun _ _ hslot _ => .inl hslot

theorem Attested.trans (h : Attested m m' deeds) (h' : Attested m' m'' deeds') :
    Attested m m'' (deeds ++ deeds') := by
  intro position slot hslot hdone
  rcases h' position slot hslot hdone with hold | hmem
  · rcases h position slot hold hdone with hold | hmem
    · exact .inl hold
    · exact .inr (List.mem_append_left _ hmem)
  · exact .inr (List.mem_append_right _ hmem)

/-- Deeds that say nothing of it do no harm. -/
theorem Attested.more (h : Attested m m' []) (deeds : List Deed) : Attested m m' deeds :=
  h.trans (.refl m' deeds)

theorem attested_reserve (live : Key → Bool) (key : Key) (m : Memo String) :
    Attested m (m.reserve live key).memo [] := by
  intro position slot hslot hdone
  rw [Memo.reserve] at hslot
  dsimp only at hslot
  split at hslot
  · exact .inl hslot
  · dsimp only at hslot
    split at hslot
    · rw [Array.getElem?_push] at hslot
      split at hslot
      · cases hslot
        cases hdone
      · exact .inl hslot
    · exact .inl hslot

/-- A slot that is filled has an odd generation then. -/
theorem attested_fill {position : Nat} {value : String} (h : m.fill position value = .ok m') :
    Attested m m' [] := by
  intro index slot hslot hdone
  rw [Memo.fill] at h
  split at h
  · cases h
    exact .inl hslot
  · next old hold =>
    rw [Slot.fill] at h
    split at h
    · next heven =>
      cases h
      dsimp only at hslot
      rw [Memo.getElem?_replace hold] at hslot
      split at hslot
      · cases hslot
        dsimp only at hdone
        omega
      · exact .inl hslot
    · cases h

theorem attested_settle {ticket : Ticket} {value value' : String}
    (h : m.settle ticket value = .settled value' m') : Attested m m' [] := by
  rw [Memo.settle] at h
  split at h
  · cases h
  · split at h
    · cases h
      exact .refl m []
    · split at h
      · split at h
        · next hfill =>
          cases h
          exact attested_fill hfill
        · cases h
      · cases h

/-- Taking away the value of a key is done to a slot of this key. -/
theorem attested_forget {live : Key → Bool} {key : Key} (hs : m.Sound live)
    (hknows : m.Knows key) (hlive : live key = true) :
    (m.forget live key).outcome = .ok true ∧
        Attested m (m.forget live key).memo [.emptied key] ∨
      (m.forget live key).outcome = .ok false ∧ Attested m (m.forget live key).memo [] := by
  cases (hs.forget hknows hlive).2 with
  | taken position slot table hslot hkey hgeneration houtcome hmemo =>
    refine .inl ⟨houtcome, fun index other hother _ => ?_⟩
    rw [hmemo] at hother
    dsimp only at hother
    rw [Memo.getElem?_replace hslot] at hother
    split at hother
    · cases hother
      exact .inr (List.mem_singleton.mpr (congrArg _ hkey))
    · exact .inl hother
  | missed table hnone houtcome hmemo =>
    refine .inr ⟨houtcome, ?_⟩
    rw [hmemo]
    exact .refl m []

end

/-- Taking a value away is the only action without a computation that changes a slot. -/
theorem attested_act {s : MemoSession} {inUse : List Key} (hs : s.Sound inUse)
    (action : BriefAction) :
    Attested s.memo (s.act inUse action).state.memo (actDeeds s inUse action) := by
  cases action with
  | forget name =>
    rw [actDeeds, MemoSession.act]
    cases hheld : s.keys.held? name with
    | none => exact .refl s.memo []
    | some key =>
      have hkey := Keyring.mem_keys_of_held? hheld
      have hholds := Keyring.holds_of_held? hheld
      have hlive : s.isLive inUse key = true := MemoSession.isLive_of_holds hholds
      dsimp only
      by_cases hkeeping : s.keeping = true
      · rw [if_pos hkeeping]
        -- the pin changes what is alive, and nothing else matters to the memo
        have hs' := hs.pin hkey hlive
        obtain ⟨houtcome, h⟩ | ⟨houtcome, h⟩ := attested_forget hs'.memo (hs'.knows hkey)
          (MemoSession.isLive_of_holds hholds)
        all_goals
          rw [houtcome]
          exact h
      · rw [if_neg hkeeping]
        obtain ⟨houtcome, h⟩ | ⟨houtcome, h⟩ := attested_forget hs.memo (hs.knows hkey) hlive
        all_goals
          rw [houtcome]
          exact h
  | look name =>
    rw [MemoSession.act]
    split <;> exact .refl s.memo _
  | key | count | isEmpty | capacity | describe => exact .refl s.memo _

/-! ## Demands -/

/-- What comes of a demand for a key on a stack that waits for it. -/
inductive Proceeds (origin : Plan MemoAction) (key : Key) (s : MemoSession) (stack : List Frame) :
    List Deed → Machine → Prop where
  /-- the stack goes on, after one computation at most, which is over already -/
  | ended {deeds : List Deed} {memo : Memo String} {calls : Nat} (events : List MemoEvent)
      (result : Except Fault (Reply MemoReply)) (hmemo : Attested s.memo memo [])
      (hle : s.calls ≤ calls) (hge : calls ≤ s.calls + 1)
      (hbegun : ∀ key' call, .begun key' call ∈ deeds → call = s.calls ∧ s.calls < calls) :
      Proceeds origin key s stack deeds
        (resume origin result ⟨{ s with memo, calls }, events⟩ stack)
  /-- a computation begins, and takes a script for it -/
  | began {memo : Memo String} {script : Script} {scripts : Scripts} (events : List MemoEvent)
      (ticket : Option Ticket) (hmemo : Attested s.memo memo [])
      (hnext : s.scripts.next? key.name = some (script, scripts))
      (hticket : ∀ t, ticket = some t → t.IsCurrent memo) :
      Proceeds origin key s stack (ticket.toList.map fun _ => .begun key s.calls)
        ⟨⟨{ s with memo, scripts, calls := s.calls + 1 }, events⟩,
          .running (.computing origin key s.calls ticket script.plans script.ending) stack⟩

section

variable {w : Scene} {s : MemoSession} {stack rest : List Frame} {origin : Plan MemoAction}
  {key : Key} {ticket : Option Ticket} {deeds : List Deed} {m : Machine} {memo : Memo String}

/-- A demand may be met right away. -/
theorem Proceeds.met (events : List MemoEvent) (result : Except Fault (Reply MemoReply))
    (hmemo : Attested s.memo memo [])
    (hbegun : ∀ key' call, .begun key' call ∉ deeds) :
    Proceeds origin key s stack deeds (resume origin result ⟨{ s with memo }, events⟩ stack) :=
  .ended events result hmemo (Nat.le_refl _) (Nat.le_succ _)
    fun key' call hmem => absurd hmem (hbegun key' call)

@[simp]
theorem session_resume (result : Except Fault (Reply MemoReply)) :
    (resume origin result w stack).scene.session = w.session := by
  cases result <;> simp [resume]

/-- No demand leaves a slot done with. -/
theorem Proceeds.attested (h : Proceeds origin key s stack deeds m) :
    Attested s.memo m.scene.session.memo deeds := by
  cases h with
  | ended events result hmemo =>
    rw [session_resume]
    exact hmemo.more _
  | began events ticket hmemo => exact hmemo.more _

/-- What was done to the memo before comes on top. -/
theorem Proceeds.of_memo (hmemo : Attested s.memo memo [])
    (h : Proceeds origin key { s with memo } stack deeds m) :
    Proceeds origin key s stack deeds m := by
  cases h with
  | ended events result hmemo' hle hge hbegun =>
    exact .ended events result (hmemo.trans hmemo') hle hge hbegun
  | began events ticket hmemo' hnext hticket =>
    exact .began events ticket (hmemo.trans hmemo') hnext hticket

theorem proceeds_compute (hticket : ∀ t, ticket = some t → t.IsCurrent w.session.memo) :
    Proceeds origin key w.session stack (computeDeeds key ticket w.session)
      (compute origin key ticket w stack) := by
  have hbegun : ∀ {deeds : List Deed}, (∀ key' call, .begun key' call ∉ deeds) →
      ∀ key' call, .begun key' call ∈ .begun key w.session.calls :: deeds →
        call = w.session.calls ∧ w.session.calls < w.session.calls + 1 := by
    intro deeds hnone key' call hmem
    rcases List.mem_cons.mp hmem with heq | hmem
    · cases heq
      exact ⟨rfl, Nat.lt_succ_self _⟩
    · exact absurd hmem (hnone key' call)
  cases ticket with
  | none =>
    rw [computeDeeds, compute]
    dsimp only
    -- without a script the standard value ends the computation at once
    cases hnext : w.session.scripts.next? key.name with
    | some next => exact .began _ none (.refl _ []) hnext hticket
    | none =>
      exact .ended _ (.ok (.single (.value _))) (.refl _ []) (Nat.le_succ _) (Nat.le_refl _)
        fun _ _ hmem => absurd hmem List.not_mem_nil
  | some t =>
    rw [computeDeeds, compute]
    dsimp only
    cases hnext : w.session.scripts.next? key.name with
    | some next => exact .began _ (some t) (.refl _ []) hnext hticket
    | none =>
      dsimp only
      cases hfill : w.session.memo.fill t.slot (standardValue key w.session.calls) with
      | error fault =>
        exact .ended _ (.error fault) (.refl _ []) (Nat.le_succ _) (Nat.le_refl _)
          (hbegun (by simp))
      | ok memo =>
        exact .ended _ (.ok (.single (.value _))) (attested_fill hfill) (Nat.le_succ _)
          (Nat.le_refl _) (hbegun (by simp))

theorem proceeds_enter : Proceeds origin key w.session stack (enterDeeds key w.session stack)
    (enter origin key w stack) := by
  have hmemo := attested_reserve (w.session.isLive (key :: keysInUse stack)) key w.session.memo
  rw [enterDeeds, enter]
  dsimp only
  cases houtcome :
      (w.session.memo.reserve (w.session.isLive (key :: keysInUse stack)) key).outcome with
  | error fault => exact .met _ (.error fault) hmemo (by simp)
  | ok access =>
    cases access with
    | value value => exact .met _ (.ok (.single (.value value))) hmemo (by simp)
    | vacant t =>
      refine .of_memo hmemo (proceeds_compute (w := Scene.tell _ { w with session := _ }) ?_)
      rintro _ ⟨⟩
      exact Memo.isCurrent_reserve houtcome

theorem proceeds_demand : Proceeds origin key w.session stack (demandDeeds key w.session stack)
    (demand origin key w stack) := by
  rw [demandDeeds, demand]
  cases w.session.memo.value? (w.session.isLive (key :: keysInUse stack)) key with
  | some value => exact .met _ (.ok (.single (.value value))) (.refl _ []) (by simp)
  | none => exact proceeds_enter

theorem proceeds_settle (value : String) :
    Proceeds origin key w.session stack (settleDeeds key ticket value w.session stack)
      (settle origin key ticket value w stack) := by
  cases ticket with
  | none => exact .met _ (.ok (.single (.value value))) (.refl _ []) (by simp [settleDeeds])
  | some t =>
    rw [settleDeeds, settle]
    dsimp only
    cases hsettle : w.session.memo.settle t value with
    | settled answer memo =>
      refine .met _ (.ok (.single (.value answer))) (attested_settle hsettle) ?_
      cases w.session.memo.valueAt t.slot <;> simp
    | outdated => exact proceeds_enter (w := w.tell _)
    | broken fault => exact .met _ (.error fault) (.refl _ []) (by simp)

/-- The end of a computation is the end of its demand, or the demand starts over. -/
theorem proceeds_conclude (call : Nat) (ending : Ending) :
    Proceeds origin key w.session stack (concludeDeeds key call ticket w.session stack ending)
      (conclude origin key call ticket w stack ending) := by
  cases ending with
  | value value => exact proceeds_settle (w := w.emit _) value
  | standard => exact proceeds_settle (w := w.emit _) _
  | fail message =>
    refine .met _ (.ok (.single _)) (.refl _ []) ?_
    cases ticket <;> simp [concludeDeeds]
  | giveUp message =>
    refine .met _ (.error (.raised message)) (.refl _ []) ?_
    cases ticket <;> simp [concludeDeeds]

/-! ## Plans -/

/-- What comes of a plan that is started on a stack. -/
inductive Opens (s : MemoSession) (stack : List Frame) :
    Plan MemoAction → List Deed → Machine → Prop where
  /-- its own plans are to be carried out -/
  | plans (plan : Plan MemoAction) (events : List MemoEvent) (isShielded : Bool)
      (pending : List (Plan MemoAction)) :
      Opens s stack plan [] ⟨⟨s, events⟩, .running (.several plan isShielded pending []) stack⟩
  /-- it is an action without a computation -/
  | brief (action : BriefAction) (events : List MemoEvent)
      (result : Except Fault (Reply MemoReply)) :
      Opens s stack (.act (.brief action)) (actDeeds s (keysInUse stack) action)
        (resume (.act (.brief action)) result ⟨(s.act (keysInUse stack) action).state, events⟩
          stack)
  /-- it is a demand that the memo never hears of -/
  | unmet (how : Demand) (name : String) (events : List MemoEvent)
      (result : Except Fault (Reply MemoReply)) :
      Opens s stack (.act (.demand how name)) []
        (resume (.act (.demand how name)) result ⟨s, events⟩ stack)
  /-- it is a demand for a key of the caller -/
  | demanded {how : Demand} {name : String} {key : Key} {deeds : List Deed} {m : Machine}
      (hkey : s.keys.key? name = some key)
      (hheld : how = .handle ∨ s.keys.held? name = some key)
      (h : Proceeds (.act (.demand how name)) key s stack deeds m) :
      Opens s stack (.act (.demand how name)) deeds m

theorem opens_start (plan : Plan MemoAction) :
    Opens w.session stack plan (startDeeds w.session stack plan) (start w stack plan) := by
  rcases plan with (action | ⟨_ | _ | _, name⟩) | plans | plans
  · rw [startDeeds, start]
    cases (w.session.act (keysInUse stack) action).result with
    | error fault => exact .brief action _ (.error fault)
    | ok reply => exact .brief action _ (.ok (.single reply))
  · rw [startDeeds, start]
    cases hheld : w.session.keys.held? name with
    | none => exact .unmet _ _ _ (.error (.unheld name))
    | some key => exact .demanded (Keyring.key?_of_held? hheld) (.inr hheld) proceeds_demand
  · rw [startDeeds, start]
    cases hfound : (w.session.keys.key? name).filter (w.session.isLive (keysInUse stack)) with
    | none => exact .unmet _ _ _ (.ok (.single (.refused .gone)))
    | some key =>
      exact .demanded (Option.filter_eq_some_iff.mp hfound).1 (.inl rfl) proceeds_demand
  · rw [startDeeds, start]
    cases hheld : w.session.keys.held? name with
    | none => exact .unmet _ _ _ (.error (.unheld name))
    | some key =>
      refine .demanded (Keyring.key?_of_held? hheld) (.inr hheld) (proceeds_compute ?_)
      intro t h
      cases h
  · exact .plans _ w.events true plans
  · exact .plans _ w.events false plans

/-- A plan leaves no slot done with that it does not put down. -/
theorem Opens.attested {plan : Plan MemoAction} (h : Opens s stack plan deeds m)
    (hs : s.Sound (keysInUse stack)) :
    Attested s.memo m.scene.session.memo deeds := by
  cases h with
  | plans => exact .refl _ []
  | brief action events result =>
    rw [session_resume]
    exact attested_act hs action
  | unmet how name events result =>
    rw [session_resume]
    exact .refl _ []
  | demanded hkey hheld h => exact h.attested

/-! ## Steps -/

/-- What comes of a step, by what the top frame has to do next. -/
inductive Moves (s : MemoSession) (top : Frame) (rest : List Frame) :
    List Deed → Machine → Prop where
  /-- it has collected all replies -/
  | done {origin : Plan MemoAction} {isShielded : Bool} {replies : List (Reply MemoReply)}
      (htop : top = .several origin isShielded [] replies) (events : List MemoEvent) :
      Moves s top rest [] (resume origin (.ok (.several replies.reverse)) ⟨s, events⟩ rest)
  /-- it is a computation that has carried out its plans -/
  | concludes {origin : Plan MemoAction} {key : Key} {call : Nat} {ticket : Option Ticket}
      {ending : Ending} {deeds : List Deed} {m : Machine}
      (htop : top = .computing origin key call ticket [] ending)
      (h : Proceeds origin key s rest deeds m) : Moves s top rest deeds m
  /-- there is another plan -/
  | opens {plan : Plan MemoAction} {waiting : Frame} {deeds : List Deed} {m : Machine}
      (htake : top.take? = some (plan, waiting)) (h : Opens s (waiting :: rest) plan deeds m) :
      Moves s top rest deeds m

theorem moves_step (w : Scene) (top : Frame) (rest : List Frame) :
    Moves w.session top rest (stepDeeds w.session top rest) (step w top rest) := by
  rcases top with ⟨origin, isShielded, _ | ⟨plan, pending⟩, replies⟩ |
    ⟨origin, key, call, ticket, _ | ⟨plan, pending⟩, ending⟩
  · exact .done rfl w.events
  · exact .opens rfl (opens_start plan)
  · exact .concludes rfl (proceeds_conclude call ending)
  · exact .opens rfl (opens_start plan)

/-- Who waits for a plan keeps its key in use. -/
theorem keysInUse_of_take? {top waiting : Frame} {plan : Plan MemoAction} {rest : List Frame}
    (h : top.take? = some (plan, waiting)) :
    keysInUse (waiting :: rest) = keysInUse (top :: rest) := by
  rcases top with ⟨_, _, _ | _, _⟩ | ⟨_, _, _, _, _ | _, _⟩ <;> cases h <;> rfl

/-- A step leaves no slot done with that it does not put down. -/
theorem Moves.attested {top : Frame} (h : Moves s top rest deeds m)
    (hs : s.Sound (keysInUse (top :: rest))) :
    Attested s.memo m.scene.session.memo deeds := by
  cases h with
  | done htop events =>
    rw [session_resume]
    exact .refl _ []
  | concludes htop h => exact h.attested
  | opens htake h =>
    rw [← keysInUse_of_take? htake] at hs
    exact h.attested hs

end

end Machine

end Ephemera

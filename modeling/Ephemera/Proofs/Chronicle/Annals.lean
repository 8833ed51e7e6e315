import Ephemera.Proofs.Chronicle.Passage

/-!
# Annals

A chronicle says what was done to values. To follow the demands themselves takes more: which
requests were made at all (`Call`), and which computations one demand ran one after the other, each
because the one before came too late (`Round`). `Annals` are kept beside a run like a chronicle, of
any stretch of it, and hold the deeds as well.

Annals of a run from the beginning have the deeds of its chronicle (`Annals.chronicle`).
-/

namespace Ephemera

/-- A request that comes to the memo. -/
inductive Call where
  /-- a value is demanded -/
  | demand (how : Demand) (name : String)
  /-- the value of a key is to be taken away -/
  | forget (key : Key)
deriving Repr, DecidableEq

/-- Whether a request demands a value. -/
def Call.isDemand : Call → Bool
  | demand .. => true
  | forget _ => false

/-- One computation that a demand runs and whose value it is to keep. -/
structure Round where
  /-- the key of the demand -/
  key : Key
  /-- the number of the computation -/
  call : Nat
  /-- the computation that the same demand ran before, if it starts over -/
  former : Option Nat
  /-- whether the script of the computation is empty; one that is missing is -/
  isBare : Bool
deriving Repr, DecidableEq

/-- Whether the next script for a name is empty. -/
def Scripts.isBare (scripts : Scripts) (name : String) : Bool :=
  (scripts.next? name).all fun next => next.1.plans.isEmpty

namespace Frame

/-- The computation that ends with this frame, if its value is to be kept. -/
def closing? : Frame → Option Nat
  | computing _ _ call (some _) [] _ => some call
  | _ => none

theorem exists_of_closing? {frame : Frame} {call : Nat} (h : frame.closing? = some call) :
    ∃ origin key t ending, frame = computing origin key call (some t) [] ending := by
  rcases frame with _ | ⟨origin, key, call', _ | t, _ | _, ending⟩ <;> cases h
  exact ⟨origin, key, t, ending, rfl⟩

/-- No computation ends while it has a plan to carry out. -/
theorem closing?_of_take? {frame waiting : Frame} {plan : Plan MemoAction}
    (h : frame.take? = some (plan, waiting)) : frame.closing? = none := by
  rcases frame with ⟨_, _, _ | _, _⟩ | ⟨_, _, _, _ | _, _ | _, _⟩ <;> cases h <;> rfl

end Frame

namespace Machine

/-! ## What is put down -/

/-- The requests when a plan is started; a name that stands for nothing makes none. -/
def startCalls (s : MemoSession) : Plan MemoAction → List Call
  | .act (.brief (.forget name)) => (s.keys.held? name).toList.map .forget
  | .act (.demand .handle name) => [.demand .handle name]
  | .act (.demand how name) => (s.keys.held? name).toList.map fun _ => .demand how name
  | _ => []

/-- The requests of a step. -/
def stepCalls (s : MemoSession) (top : Frame) : List Call :=
  match top.take? with
  | some (plan, _) => startCalls s plan
  | none => []

/-- The round that a deed begins. -/
def round? (scripts : Scripts) (former : Option Nat) : Deed → Option Round
  | .begun key call => some ⟨key, call, former, scripts.isBare key.name⟩
  | _ => none

/-- The rounds when a plan is started. -/
def startRounds (s : MemoSession) (stack : List Frame) (plan : Plan MemoAction) : List Round :=
  (startDeeds s stack plan).filterMap (round? s.scripts none)

/-- The rounds of a step. -/
def stepRounds (s : MemoSession) (top : Frame) (rest : List Frame) : List Round :=
  (stepDeeds s top rest).filterMap (round? s.scripts top.closing?)

/-- What a caller can bring about from a state on, with what was put down on the way. -/
inductive Annals (m₀ : Machine) : List Deed → List Round → List Call → Machine → Prop where
  | here : Annals m₀ [] [] [] m₀
  | step {deeds : List Deed} {rounds : List Round} {calls : List Call} {w : Scene} {top : Frame}
      {rest : List Frame} (h : Annals m₀ deeds rounds calls ⟨w, .running top rest⟩) :
      Annals m₀ (deeds ++ stepDeeds w.session top rest) (rounds ++ stepRounds w.session top rest)
        (calls ++ stepCalls w.session top) (step w top rest)
  | start {deeds : List Deed} {rounds : List Round} {calls : List Call} {w : Scene}
      {result : Except Fault (Reply MemoReply)}
      (h : Annals m₀ deeds rounds calls ⟨w, .finished result⟩) (plan : Plan MemoAction) :
      Annals m₀ (deeds ++ startDeeds w.session [] plan) (rounds ++ startRounds w.session [] plan)
        (calls ++ startCalls w.session plan) (start ⟨w.session, []⟩ [] plan)

variable {request : Nat} {scripts : Scripts} {keeping : Bool} {deeds earlier : List Deed}
  {rounds : List Round} {calls : List Call} {m₀ m : Machine}

/-- Annals are those of a run. -/
theorem Annals.leads (h : Annals m₀ deeds rounds calls m) : Leads m₀ m := by
  induction h with
  | here => exact .refl
  | step h ih => exact ih.tail (.step (.next _ _ _))
  | start h plan ih => exact ih.tail (.start _ _ plan)

/-- Every run has its annals. -/
theorem Leads.annals (h : Leads m₀ m) : ∃ deeds rounds calls, Annals m₀ deeds rounds calls m := by
  induction h with
  | refl => exact ⟨[], [], [], .here⟩
  | tail _ hnext ih =>
    obtain ⟨deeds, rounds, calls, h⟩ := ih
    cases hnext with
    | step hstep =>
      cases hstep with
      | next w top rest => exact ⟨_, _, _, h.step⟩
    | start w result plan => exact ⟨_, _, _, h.start plan⟩

/-- The machine after so many steps, or fewer if all is done by then, with what was put down. -/
def follow : Nat → List Deed × List Round × List Call × Machine →
    List Deed × List Round × List Call × Machine
  | n + 1, (deeds, rounds, calls, ⟨w, .running top rest⟩) =>
    follow n (deeds ++ stepDeeds w.session top rest, rounds ++ stepRounds w.session top rest,
      calls ++ stepCalls w.session top, step w top rest)
  | _, c => c

theorem Annals.follow {c : List Deed × List Round × List Call × Machine}
    (h : Annals m₀ c.1 c.2.1 c.2.2.1 c.2.2.2) (n : Nat) :
    Annals m₀ (follow n c).1 (follow n c).2.1 (follow n c).2.2.1 (follow n c).2.2.2 := by
  induction n generalizing c with
  | zero => exact h
  | succ n ih =>
    obtain ⟨deeds, rounds, calls, w, top | result⟩ := c
    · exact ih h.step
    · exact h

/-- The deeds in annals carry on a chronicle. -/
theorem Annals.extends (h : Annals m₀ deeds rounds calls m)
    (hearlier : Chronicle request scripts keeping earlier m₀) :
    Chronicle request scripts keeping (earlier ++ deeds) m := by
  induction h with
  | here => rwa [List.append_nil]
  | step h ih =>
    rw [← List.append_assoc]
    exact ih.step
  | start h plan ih =>
    rw [← List.append_assoc]
    exact ih.start plan

/-- Annals from the beginning have the deeds of a chronicle. -/
theorem Annals.chronicle (h : Annals (idle request scripts keeping) deeds rounds calls m) :
    Chronicle request scripts keeping deeds m :=
  h.extends .idle

/-! ## Slots that are done with -/

/-- Along a run, every slot that has come to be done with is attested. No address may be used
twice. -/
theorem Annals.attested (h : Annals m₀ deeds rounds calls m) (hs : m₀.Sound)
    (hdistinct : m.scene.session.keys.Distinct) :
    Attested m₀.scene.session.memo m.scene.session.memo deeds := by
  induction h with
  | here => exact .refl _ []
  | step h ih =>
    have hdistinct' := hdistinct.of_isPrefix (later_step _ _ _).keys
    exact (ih hdistinct').trans
      ((moves_step _ _ _).attested (h.leads.sound hs hdistinct').scene.session)
  | start h plan ih =>
    have hdistinct' := hdistinct.of_isPrefix (later_start _ [] plan).keys
    exact (ih hdistinct').trans
      ((opens_start (w := ⟨_, []⟩) plan).attested (h.leads.sound hs hdistinct').scene.session)

end Machine

end Ephemera

import Ephemera.Session.Machine

/-!
# Nested computations come to an end

A demand may be repeated without a bound, and a computation may demand values itself, so it
takes an argument that all of it ends. `Machine.weight` is that argument: it counts what the
scripts that are left and the frames on the stack can still do, and every step makes it
smaller (`weight_step`). A computation is put on the stack only together with a script that
has been taken off its list, and a demand starts over only when a computation has ended.

`Machine.run` follows the steps to the end, and the weight it starts with is all the fuel
it needs.
-/

namespace Ephemera

/-- How much there is to do in a frame, its end included. -/
def Frame.weight : Frame → Nat
  | .several _ _ pending _ => Plan.sizeAll pending + 1
  | .computing _ _ _ _ pending _ => Plan.sizeAll pending + 1

/-- How much there is to do on a stack. -/
def stackWeight : List Frame → Nat
  | [] => 0
  | frame :: rest => frame.weight + stackWeight rest

/-- How much there is to do in the scripts of a scene. -/
def Scene.weight (w : Scene) : Nat :=
  w.session.scripts.weight

namespace Machine

/-- How much there is to do. -/
def weight (m : Machine) : Nat :=
  match m.phase with
  | .finished _ => 0
  | .running top rest => m.scene.weight + stackWeight (top :: rest)

/-! ## Every step leaves less to do -/

@[simp]
theorem weight_emit (e : MemoEvent) (w : Scene) : (w.emit e).weight = w.weight := rfl

@[simp]
theorem weight_tell (messages : List Message) (w : Scene) :
    (w.tell messages).weight = w.weight := rfl

theorem weight_deliver (origin : Plan MemoAction) (reply : Reply MemoReply) (w : Scene)
    (stack : List Frame) :
    (deliver origin reply w stack).weight ≤ w.weight + stackWeight stack := by
  rcases stack with _ | ⟨_ | _, rest⟩ <;>
    simp [deliver, weight, stackWeight, Frame.weight]

theorem weight_unwind (fault : Fault) (w : Scene) (stack : List Frame) :
    (unwind fault w stack).weight ≤ w.weight + stackWeight stack := by
  induction stack with
  | nil => simp [unwind, weight]
  | cons top rest ih =>
    have hrest : stackWeight rest ≤ stackWeight (top :: rest) := by simp [stackWeight]
    rcases top with ⟨origin, _ | _, pending, replies⟩ | _
    · exact Nat.le_trans ih (by omega)
    · simp [unwind, weight, stackWeight, Frame.weight]
    · exact Nat.le_trans ih (by omega)

theorem weight_compute (origin : Plan MemoAction) (key : Key) (ticket : Option Ticket)
    (w : Scene) (rest : List Frame) :
    (compute origin key ticket w rest).weight ≤ w.weight + stackWeight rest := by
  unfold compute
  dsimp only
  split
  · next script scripts h =>
    have hw : script.weight + scripts.weight = w.session.scripts.weight :=
      Scripts.weight_of_next? h
    simp only [Script.weight] at hw
    simp [weight, Scene.weight, stackWeight, Frame.weight]
    omega
  · split
    · exact weight_deliver ..
    · split
      · exact weight_unwind ..
      · exact weight_deliver ..

theorem weight_enter (origin : Plan MemoAction) (key : Key) (w : Scene) (rest : List Frame) :
    (enter origin key w rest).weight ≤ w.weight + stackWeight rest := by
  rw [enter]
  dsimp only
  split
  · exact weight_unwind ..
  · exact weight_deliver ..
  · exact weight_compute ..

theorem weight_demand (origin : Plan MemoAction) (key : Key) (w : Scene) (rest : List Frame) :
    (demand origin key w rest).weight ≤ w.weight + stackWeight rest := by
  rw [demand]
  split
  · exact weight_deliver ..
  · exact weight_enter ..

theorem weight_settle (origin : Plan MemoAction) (key : Key) (ticket : Option Ticket)
    (value : String) (w : Scene) (rest : List Frame) :
    (settle origin key ticket value w rest).weight ≤ w.weight + stackWeight rest := by
  unfold settle
  split
  · exact weight_deliver ..
  · split
    · exact weight_deliver ..
    · exact weight_enter ..
    · exact weight_unwind ..

theorem weight_conclude (origin : Plan MemoAction) (key : Key) (call : Nat)
    (ticket : Option Ticket) (w : Scene) (rest : List Frame) (ending : Ending) :
    (conclude origin key call ticket w rest ending).weight ≤ w.weight + stackWeight rest := by
  unfold conclude
  split
  · exact weight_settle ..
  · exact weight_settle ..
  · exact weight_deliver ..
  · exact weight_unwind ..

/-- Nothing that a caller does itself touches the scripts. -/
theorem scripts_act (s : MemoSession) (inUse : List Key) (action : BriefAction) :
    (s.act inUse action).state.scripts = s.scripts := by
  cases action <;> simp only [MemoSession.act]
  case look => split <;> rfl
  case forget =>
    split
    · rfl
    · dsimp only
      split <;> rfl

theorem weight_start (w : Scene) (stack : List Frame) (plan : Plan MemoAction) :
    (start w stack plan).weight + 1 ≤ w.weight + stackWeight stack + plan.size := by
  unfold start
  split
  · simp [weight, stackWeight, Frame.weight, Plan.size]
    omega
  · simp [weight, stackWeight, Frame.weight, Plan.size]
    omega
  · next action =>
    have hs := scripts_act w.session (keysInUse stack) action
    dsimp only
    simp only [Plan.size]
    apply Nat.succ_le_succ
    have hw : ∀ events : List Message,
        (Scene.tell events
          { w with session := (w.session.act (keysInUse stack) action).state }).weight
          = w.weight := fun _ => congrArg Scripts.weight hs
    split
    · exact hw _ ▸ weight_unwind ..
    · exact hw _ ▸ weight_deliver ..
  · apply Nat.succ_le_succ
    split
    · exact weight_unwind ..
    · exact weight_demand ..
  · apply Nat.succ_le_succ
    dsimp only
    split
    · exact weight_deliver ..
    · exact weight_demand ..
  · apply Nat.succ_le_succ
    split
    · exact weight_unwind ..
    · exact weight_compute ..

/-- Every step leaves less to do. -/
theorem weight_step (w : Scene) (top : Frame) (rest : List Frame) :
    (step w top rest).weight < (⟨w, .running top rest⟩ : Machine).weight := by
  unfold step
  split
  · apply Nat.lt_of_le_of_lt (weight_deliver ..)
    simp only [weight, stackWeight, Frame.weight]
    omega
  · next origin isShielded plan pending replies =>
    have := weight_start w (.several origin isShielded pending replies :: rest) plan
    simp only [weight, stackWeight, Frame.weight, Plan.sizeAll] at this ⊢
    omega
  · apply Nat.lt_of_le_of_lt (weight_conclude ..)
    simp only [weight, stackWeight, Frame.weight]
    omega
  · next origin key call ticket plan pending ending =>
    have := weight_start w (.computing origin key call ticket pending ending :: rest) plan
    simp only [weight, stackWeight, Frame.weight, Plan.sizeAll] at this ⊢
    omega

/-! ## Runs -/

/-- Follows the steps to the end, at most `bound` of them. -/
def runFor : (bound : Nat) → (m : Machine) → m.weight ≤ bound →
    Scene × Except Fault (Reply MemoReply)
  | _, ⟨w, .finished result⟩, _ => (w, result)
  | 0, ⟨w, .running top rest⟩, h => absurd (weight_step w top rest) (by omega)
  | bound + 1, ⟨w, .running top rest⟩, h =>
    runFor bound (step w top rest) (by have := weight_step w top rest; omega)

/-- Follows the steps to the end. -/
def run (m : Machine) : Scene × Except Fault (Reply MemoReply) :=
  m.runFor m.weight (Nat.le_refl _)

end Machine

end Ephemera

import Ephemera.Proofs.Keyring
import Ephemera.Proofs.Memo.Later
import Ephemera.Session.Progress
import Mathlib.Logic.Relation

/-!
# What no step undoes

Some things hold of every step without any further assumption: keys that were made stay on the
ring, slots stay where they are, and scripts that were taken do not come back.
`MemoSession.Later` collects them, and `later_step` says it of a step. `Steps` is any number of
steps, from one plan of the caller to its end at most.
-/

namespace Ephemera

namespace Scripts

/-- The number of scripts that are left. -/
def count : Scripts → Nat
  | [] => 0
  | (_, scripts) :: rest => scripts.length + count rest

/-- Taking a script leaves one less. -/
theorem count_of_next? {name : String} {s : Scripts} {script : Script} {left : Scripts}
    (h : s.next? name = some (script, left)) : count left + 1 = count s := by
  induction s generalizing script left with
  | nil => cases h
  | cons entry rest ih =>
    obtain ⟨owner, scripts⟩ := entry
    unfold next? at h
    split at h
    · split at h
      · cases h
      · cases h
        simp only [count, List.length_cons]
        omega
    · obtain ⟨⟨script', left'⟩, h', hpair⟩ := Option.map_eq_some_iff.mp h
      cases hpair
      have := ih h'
      simp only [count]
      omega

end Scripts

namespace MemoSession

variable {s s' s'' : MemoSession}

/-- What has happened to a session can only add to it. -/
structure Later (s s' : MemoSession) : Prop where
  /-- keys stay on the ring -/
  keys : s.keys.keys <+: s'.keys.keys
  /-- slots stay where they are -/
  memo : s.memo.Later s'.memo
  /-- scripts do not come back -/
  scripts : s'.scripts.count ≤ s.scripts.count

theorem Later.refl (s : MemoSession) : s.Later s :=
  ⟨List.prefix_rfl, .refl s.memo, Nat.le_refl _⟩

theorem Later.trans (h : s.Later s') (h' : s'.Later s'') : s.Later s'' :=
  ⟨h.keys.trans h'.keys, h.memo.trans h'.memo, Nat.le_trans h'.scripts h.scripts⟩

theorem later_memo {memo : Memo String} (h : s.memo.Later memo) : s.Later { s with memo } :=
  ⟨List.prefix_rfl, h, Nat.le_refl _⟩

theorem later_act (s : MemoSession) (inUse : List Key) (action : BriefAction) :
    s.Later (s.act inUse action).state := by
  cases action with
  | key action => exact ⟨s.keys.keys_perform (s.isLive inUse) action, .refl s.memo, Nat.le_refl _⟩
  | look name =>
    rw [act]
    split <;> exact Later.refl s
  | forget name =>
    rw [act]
    split
    · exact Later.refl s
    · next key hkey =>
      dsimp only
      split
      · exact ⟨List.prefix_rfl, Memo.later_forget _ key s.memo, Nat.le_refl _⟩
      · exact later_memo (Memo.later_forget _ key s.memo)
  | count | isEmpty | capacity | describe isExpanded => exact Later.refl s

end MemoSession

namespace Machine

open MemoSession (Later)

/-! ## One step -/

@[simp]
theorem session_deliver (origin : Plan MemoAction) (reply : Reply MemoReply) (w : Scene)
    (stack : List Frame) : (deliver origin reply w stack).scene.session = w.session := by
  rcases stack with _ | ⟨_ | _, rest⟩ <;> rfl

@[simp]
theorem scene_unwind (fault : Fault) (w : Scene) (stack : List Frame) :
    (unwind fault w stack).scene = w := by
  induction stack with
  | nil => rfl
  | cons top rest ih =>
    rcases top with ⟨origin, _ | _, pending, replies⟩ | _
    · exact ih
    · rfl
    · exact ih

theorem later_compute (origin : Plan MemoAction) (key : Key) (ticket : Option Ticket)
    (w : Scene) (rest : List Frame) :
    w.session.Later (compute origin key ticket w rest).scene.session := by
  rw [compute]
  dsimp only
  split
  · next script scripts h =>
    have := Scripts.count_of_next? h
    exact ⟨List.prefix_rfl, .refl _, by dsimp only; omega⟩
  · split
    · rw [session_deliver]
      exact ⟨List.prefix_rfl, .refl _, Nat.le_refl _⟩
    · split
      · rw [scene_unwind]
        exact ⟨List.prefix_rfl, .refl _, Nat.le_refl _⟩
      · next hfill =>
        rw [session_deliver]
        exact ⟨List.prefix_rfl, Memo.later_fill hfill, Nat.le_refl _⟩

theorem later_enter (origin : Plan MemoAction) (key : Key) (w : Scene) (rest : List Frame) :
    w.session.Later (enter origin key w rest).scene.session := by
  have hreserve := MemoSession.later_memo
    (Memo.later_reserve (w.session.isLive (key :: keysInUse rest)) key w.session.memo)
  rw [enter]
  dsimp only
  split
  · rw [scene_unwind]
    exact hreserve
  · rw [session_deliver]
    exact hreserve
  · exact hreserve.trans (later_compute _ _ _ (Scene.tell _ ⟨{ w.session with memo := _ }, _⟩) _)

theorem later_demand (origin : Plan MemoAction) (key : Key) (w : Scene) (rest : List Frame) :
    w.session.Later (demand origin key w rest).scene.session := by
  rw [demand]
  split
  · rw [session_deliver]
    exact Later.refl w.session
  · exact later_enter ..

theorem later_settle (origin : Plan MemoAction) (key : Key) (ticket : Option Ticket)
    (value : String) (w : Scene) (rest : List Frame) :
    w.session.Later (settle origin key ticket value w rest).scene.session := by
  unfold settle
  split
  · rw [session_deliver]
    exact Later.refl w.session
  · split
    · next hsettle =>
      rw [session_deliver]
      exact MemoSession.later_memo (Memo.later_settle hsettle)
    · exact later_enter origin key (w.tell _) rest
    · rw [scene_unwind]
      exact Later.refl w.session

theorem later_conclude (origin : Plan MemoAction) (key : Key) (call : Nat)
    (ticket : Option Ticket) (w : Scene) (rest : List Frame) (ending : Ending) :
    w.session.Later (conclude origin key call ticket w rest ending).scene.session := by
  unfold conclude
  split
  · exact later_settle origin key ticket _ (w.emit _) rest
  · exact later_settle origin key ticket _ (w.emit _) rest
  · dsimp only
    rw [session_deliver]
    exact Later.refl w.session
  · rw [scene_unwind]
    exact Later.refl w.session

theorem later_start (w : Scene) (stack : List Frame) (plan : Plan MemoAction) :
    w.session.Later (start w stack plan).scene.session := by
  unfold start
  split
  · exact Later.refl w.session
  · exact Later.refl w.session
  · next action =>
    have hact := MemoSession.later_act w.session (keysInUse stack) action
    dsimp only
    split
    · rw [scene_unwind]
      exact hact
    · rw [session_deliver]
      exact hact
  · split
    · rw [scene_unwind]
      exact Later.refl w.session
    · exact later_demand ..
  · dsimp only
    split
    · rw [session_deliver]
      exact Later.refl w.session
    · exact later_demand ..
  · split
    · rw [scene_unwind]
      exact Later.refl w.session
    · exact later_compute ..

theorem later_step (w : Scene) (top : Frame) (rest : List Frame) :
    w.session.Later (step w top rest).scene.session := by
  unfold step
  split
  · rw [session_deliver]
    exact Later.refl w.session
  · exact later_start ..
  · exact later_conclude ..
  · exact later_start ..

/-! ## Any number of steps -/

/-- One machine is the next state of another. -/
inductive Step : Machine → Machine → Prop where
  | next (w : Scene) (top : Frame) (rest : List Frame) :
      Step ⟨w, .running top rest⟩ (step w top rest)

/-- A machine comes to another one in some steps. -/
def Steps : Machine → Machine → Prop :=
  Relation.ReflTransGen Step

theorem Steps.later {m m' : Machine} (h : Steps m m') :
    m.scene.session.Later m'.scene.session := by
  induction h with
  | refl => exact Later.refl _
  | tail _ hstep ih =>
    cases hstep with
    | next w top rest => exact ih.trans (later_step w top rest)

end Machine

end Ephemera

import Ephemera.Proofs.Chronicle.Passage

/-!
# Every plan returns

A plan that is started on a stack leaves this stack alone until it is over, and the stack goes on
with its result then (`Within`). Since every step leaves less to do, this comes to pass
(`start_returns`): no demand goes on for ever, at whatever depth it is made and however often it
starts over. Nothing is assumed of the session here.
-/

namespace Ephemera

/-- The plan that a frame carries out. -/
def Frame.origin : Frame → Plan MemoAction
  | several origin .. => origin
  | computing origin .. => origin

namespace Machine

variable {origin origin' plan : Plan MemoAction} {key : Key} {s : MemoSession} {w : Scene}
  {above base rest : List Frame} {top frame waiting : Frame} {deeds : List Deed} {m : Machine}

/-- A plan is under way on top of a stack, or the stack goes on with its result. -/
def Within (origin : Plan MemoAction) (base : List Frame) (m : Machine) : Prop :=
  (∃ above frame, frame.origin = origin ∧ m.phase.stack = above ++ frame :: base) ∨
    ∃ result w, m = resume origin result w base

/-- A result that frames further up get leaves the stack alone, unless it is a fault that ends the
plan. -/
theorem within_resume (result : Except Fault (Reply MemoReply)) (above : List Frame)
    (horigin : frame.origin = origin) :
    Within origin base (resume origin' result w (above ++ frame :: base)) := by
  cases result with
  | ok reply =>
    rcases above with _ | ⟨_ | _, above⟩
    · cases frame with
      | several => exact .inl ⟨[], .several _ _ _ (_ :: _), horigin, rfl⟩
      | computing => exact .inl ⟨[], .computing .., horigin, rfl⟩
    · exact .inl ⟨.several .. :: above, frame, horigin, rfl⟩
    · exact .inl ⟨.computing .. :: above, frame, horigin, rfl⟩
  | error fault =>
    -- a fault goes on through frames without a shield, as far as the frame of the plan itself
    induction above with
    | nil =>
      rcases frame with ⟨_, _ | _, _, _⟩ | _
      · exact .inr ⟨.error fault, w, rfl⟩
      · exact .inl ⟨[], .several _ _ _ (_ :: _), horigin, rfl⟩
      · exact .inr ⟨.error fault, w, rfl⟩
    | cons top above ih =>
      rcases top with ⟨_, _ | _, _, _⟩ | _
      · exact ih
      · exact .inl ⟨.several .. :: above, frame, horigin, rfl⟩
      · exact ih

/-- What leaves a stack alone leaves its lower part alone. -/
theorem Within.outer (h : Within origin' (above ++ frame :: base) m)
    (horigin : frame.origin = origin) : Within origin base m := by
  obtain ⟨above', frame', -, hstack⟩ | ⟨result, w, rfl⟩ := h
  · refine .inl ⟨above' ++ frame' :: above, frame, horigin, ?_⟩
    rw [hstack, List.append_assoc, List.cons_append]
  · exact within_resume result above horigin

theorem Proceeds.within (h : Proceeds origin key s base deeds m) : Within origin base m := by
  cases h with
  | ended events result => exact .inr ⟨result, _, rfl⟩
  | began => exact .inl ⟨[], .computing .., rfl, rfl⟩

theorem Opens.within (h : Opens s base plan deeds m) : Within plan base m := by
  cases h with
  | plans => exact .inl ⟨[], .several .., rfl, rfl⟩
  | brief action events result => exact .inr ⟨result, _, rfl⟩
  | unmet how name events result => exact .inr ⟨result, _, rfl⟩
  | demanded hkey hheld h => exact h.within

theorem origin_of_take? (h : top.take? = some (plan, waiting)) : waiting.origin = top.origin := by
  rcases top with ⟨_, _, _ | _, _⟩ | ⟨_, _, _, _, _ | _, _⟩ <;> cases h <;> rfl

/-- A step while a plan is under way. -/
theorem Moves.within (h : Moves s top rest deeds m) (horigin : frame.origin = origin)
    (hstack : top :: rest = above ++ frame :: base) : Within origin base m := by
  cases above with
  | nil =>
    obtain ⟨rfl, rfl⟩ := List.cons.inj hstack
    cases h with
    | done htop events =>
      subst htop horigin
      exact .inr ⟨_, _, rfl⟩
    | concludes htop h =>
      subst htop horigin
      exact h.within
    | @opens plan waiting _ _ htake h =>
      -- what the frame opens is its own business, and comes back to it
      have hwithin : Within plan ([] ++ waiting :: rest) m := h.within
      exact hwithin.outer ((origin_of_take? htake).trans horigin)
  | cons top' above =>
    obtain ⟨rfl, rfl⟩ := List.cons.inj hstack
    cases h with
    | done htop events => exact within_resume _ above horigin
    | concludes htop h => exact h.within.outer horigin
    | @opens plan waiting _ _ htake h =>
      have hwithin : Within plan ((waiting :: above) ++ frame :: base) m := h.within
      exact hwithin.outer horigin

/-- On its way to the end of everything, a machine comes to the end of a plan that is under way. -/
theorem Within.returns {result : Except Fault (Reply MemoReply)}
    (hsteps : Steps m ⟨w, .finished result⟩) (h : Within origin base m) :
    ∃ result w, Steps m (resume origin result w base) := by
  induction hsteps using Relation.ReflTransGen.head_induction_on with
  | refl =>
    obtain ⟨above, frame, -, hstack⟩ | ⟨result, w, heq⟩ := h
    · cases List.append_ne_nil_of_right_ne_nil above (List.cons_ne_nil frame base) hstack.symm
    · exact ⟨result, w, heq ▸ .refl⟩
  | head hstep _ ih =>
    obtain ⟨above, frame, horigin, hstack⟩ | ⟨result, w, rfl⟩ := h
    · cases hstep with
      | next w top rest =>
        obtain ⟨result, w', hrest⟩ := ih ((moves_step w top rest).within horigin hstack)
        exact ⟨result, w', (steps_step w top rest).trans hrest⟩
    · exact ⟨result, w, .refl⟩

/-- Whatever plan is started, the stack goes on with its result after some steps. -/
theorem start_returns (w : Scene) (stack : List Frame) (plan : Plan MemoAction) :
    ∃ result w', Steps (start w stack plan) (resume plan result w' stack) :=
  (opens_start plan).within.returns (run_steps _)

end Machine

end Ephemera

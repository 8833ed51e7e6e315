import Ephemera.Proofs.Ledger.Meet
import Ephemera.Proofs.Ledger.Plan
import Ephemera.Proofs.Machine.Lifecycle

/-!
# A memo is a ledger

What a caller sees of a memo is what it would see of a ledger: the replies to all plans, the
computations that begin and end and what they are told, and the number of living keys with a
value. The number of chains, the memo's text and its lines for the log are left out, since a
ledger knows nothing of them. It has to know whether more chains were asked for than can be
allocated: such a memo computes no value that it should keep (`play_barred`).
-/

namespace Ephemera

namespace Machine

variable {w w' : Scene} {m m' : Machine} {s : MemoSession} {plan : Plan MemoAction}
  {result result' : Except Fault (Reply MemoReply)}

/-! ## Runs -/

theorem rightUnique_step : Relator.RightUnique Step := by
  rintro _ _ _ ⟨w, top, rest⟩ ⟨_, _, _⟩
  rfl

/-- A machine that is done stays as it is. -/
theorem Steps.eq_of_finished (h : Steps ⟨w, .finished result⟩ m) : m = ⟨w, .finished result⟩ := by
  induction h with
  | refl => rfl
  | tail _ hstep ih =>
    subst ih
    cases hstep

/-- Whatever a machine comes through is on the way to its end. -/
theorem Steps.to_finished (h : Steps m ⟨w, .finished result⟩) (h' : Steps m m') :
    Steps m' ⟨w, .finished result⟩ := by
  rcases Relation.ReflTransGen.total_of_right_unique rightUnique_step h h' with hafter | hbefore
  · rw [Steps.eq_of_finished hafter]
    exact .refl
  · exact hbefore

theorem runFor_steps (bound : Nat) (m : Machine) (h : m.weight ≤ bound) :
    Steps m ⟨(m.runFor bound h).1, .finished (m.runFor bound h).2⟩ := by
  fun_induction runFor bound m h with
  | case1 => exact .refl
  | case2 bound w top rest h ih => exact (steps_step w top rest).trans ih

/-- A run comes to an end by steps of the machine. -/
theorem run_steps (m : Machine) : Steps m ⟨m.run.1, .finished m.run.2⟩ :=
  runFor_steps m.weight m (Nat.le_refl _)

/-- The end that a machine comes to is the one of its run. -/
theorem run_eq (h : Steps m ⟨w, .finished result⟩) : m.run = (w, result) := by
  have heq := Steps.eq_of_finished (h.to_finished (run_steps m))
  rw [Machine.mk.injEq, Phase.finished.injEq] at heq
  exact Prod.ext heq.1.symm heq.2.symm

theorem Steps.leads (h : Steps m m') : Leads m m' := by
  induction h with
  | refl => exact .refl
  | tail _ hstep ih => exact ih.tail (.step hstep)

/-- A plan of a caller is secure if no address has been used twice by its end. -/
theorem secure_start (hs : s.Sound []) (hdistinct : (s.run plan).state.keys.Distinct) :
    (start ⟨s, []⟩ [] plan).Secure := by
  intro m hsteps
  have hfinished := run_steps (start ⟨s, []⟩ [] plan)
  have hlater := Steps.later (hfinished.to_finished hsteps)
  have hstart : (start ⟨s, []⟩ [] plan).Sound :=
    sound_start (Scene.sound_fresh hs) (hdistinct.of_isPrefix (Steps.later hfinished).keys)
  exact hsteps.leads.sound hstart (hdistinct.of_isPrefix hlater.keys)

end Machine

namespace MemoSession

variable {s : MemoSession} {plan : Plan MemoAction}

/-- The session after some plans. -/
def after (s : MemoSession) (plans : List (Plan MemoAction)) : MemoSession :=
  plans.foldl (fun s plan => (s.run plan).state) s

theorem later_run (s : MemoSession) (plan : Plan MemoAction) : s.Later (s.run plan).state :=
  (Machine.later_start ⟨s, []⟩ [] plan).trans (Machine.Steps.later (Machine.run_steps _))

theorem later_after (s : MemoSession) (plans : List (Plan MemoAction)) :
    s.Later (s.after plans) := by
  induction plans generalizing s with
  | nil => exact .refl s
  | cons plan plans ih => exact (s.later_run plan).trans (ih _)

/-- A plan keeps a session sound, if no address is used twice. -/
theorem Sound.run (hs : s.Sound []) (hdistinct : (s.run plan).state.keys.Distinct) :
    (s.run plan).state.Sound [] :=
  (Machine.secure_start hs hdistinct _ (Machine.run_steps _)).scene.session

/-- A plan does to a session what it does to its ledger, and shows the same. -/
theorem Sound.run_ledger (hs : s.Sound []) (hdistinct : (s.run plan).state.keys.Distinct) :
    (s.run plan).state.ledger = (s.ledger.run plan).state ∧
      (s.run plan).events.filterMap MemoEvent.visible? = (s.ledger.run plan).events ∧
        (s.run plan).result.map Reply.visible = (s.ledger.run plan).result := by
  have hsecure := Machine.secure_start hs hdistinct
  obtain ⟨result, w, hsteps, hresult, hmatches⟩ :=
    (Machine.serves s.scripts.count).follows (Nat.le_refl _) plan ⟨s, []⟩ [] rfl
      (Scene.sound_fresh hs) (Nat.le_refl _) hsecure
  have hend : Machine.resume plan result w [] = ⟨w, .finished result⟩ := by
    cases result <;> rfl
  rw [hend] at hsteps
  have hrun := Machine.run_eq hsteps
  obtain ⟨heq, -⟩ := (Ledger.agree_meet s.scripts.count []).run plan s.ledger (Nat.le_refl _)
  rw [MemoSession.run, hrun, Ledger.run, heq]
  exact ⟨hmatches.ledger, hmatches.visible, hresult⟩

/-- Plans show the same for a session and its ledger. -/
theorem Sound.play_ledger (hs : s.Sound []) (plans : List (Plan MemoAction))
    (hdistinct : (s.after plans).keys.Distinct) :
    (s.play plans).map Report.visible = s.ledger.play plans := by
  induction plans generalizing s with
  | nil => rfl
  | cons plan plans ih =>
    -- keys stay on the ring, so those of the first plan are among the last
    have hfirst : (s.run plan).state.keys.Distinct :=
      hdistinct.of_isPrefix (later_after (s.run plan).state plans).keys
    obtain ⟨hledger, hevents, hresult⟩ := hs.run_ledger hfirst
    have hsound := hs.run hfirst
    have hrest := ih hsound hdistinct
    have hfirst : Report.visible ⟨.ofResult (s.run plan).result, (s.run plan).events,
        (s.run plan).state.survey.1, (s.run plan).state.survey.2⟩
        = ⟨.ofResult (s.ledger.run plan).result, (s.ledger.run plan).events, "",
          (s.ledger.run plan).state.count []⟩ := by
      rw [Report.visible, Reply.visible_ofResult, hresult, hevents, ← hledger, hsound.count_ledger]
      rfl
    rw [play, Ledger.play, Ephemera.play, Ephemera.play, List.map_cons]
    dsimp only
    rw [hfirst, ← hledger]
    exact congrArg _ hrest

/-- Whatever a caller does with a new memo shows the same as if it did it with a ledger: all
replies, all events of computations, and the number of living keys with a value. The ledger is
barred where more chains are asked for than can be allocated. The addresses of keys have to be
different. -/
theorem refines_ledger (request : Nat) (scripts : Scripts) (keeping : Bool)
    (plans : List (Plan MemoAction))
    (hdistinct : ((ofCapacity request scripts keeping).after plans).keys.Distinct) :
    ((ofCapacity request scripts keeping).play plans).map Report.visible
      = (Ledger.empty request scripts keeping).play plans := by
  rw [← ledger_ofCapacity request scripts keeping]
  exact (sound_ofCapacity request scripts keeping).play_ledger plans hdistinct

/-- A ledger that is not barred has the value at once, but the memo has only a fault. -/
theorem play_barred :
    let plans : List (Plan MemoAction) :=
      [.act (.brief (.key (.make "a" "t" none))), .act (.demand .held "a"), .act (.brief .count)]
    let s := ofCapacity (2 ^ 60) [] false
    ((s.after plans).keys.keys.map Key.address).Nodup ∧
      (s.play plans).map (Reply.visible ∘ Report.reply)
        = [.single (.flag none), .struck .overflow, .single (.count 0)] ∧
      ((Ledger.empty 0 [] false).play plans).map Report.reply
        = [.single (.flag none), .single (.value "t#0"), .single (.count 1)] := by
  exact ⟨by decide, rfl, rfl⟩

/-- A computation demands its own value and takes it away again, so its value is not kept, and
the demand is repeated. -/
theorem refines_ledger_repeated :
    let scripts : Scripts := [("a", [
      ⟨[.act (.demand .held "a"), .act (.brief (.forget "a"))], .value "v"⟩])]
    let plans : List (Plan MemoAction) :=
      [.act (.brief (.key (.make "a" "t" none))), .act (.demand .held "a")]
    let s := ofCapacity 0 scripts false
    (s.after plans).calls = 3 ∧
      (s.play plans).map Report.visible = (Ledger.empty 0 scripts false).play plans := by
  intro scripts plans s
  have hdistinct : ((s.after plans).keys.keys.map Key.address).Nodup := by decide
  exact ⟨by decide, refines_ledger 0 scripts false plans hdistinct⟩

end MemoSession

end Ephemera

import Ephemera.Proofs.Ledger.Basic

/-!
# Demands on the ledger

`Ledger.serve` counts scripts only to be defined at all. Once it may use up as many as are left,
the number does not matter (`same_serve`), so a demand is met by the rule that it is meant to
follow: `meet_kept` and `meet_unkept` say that the value is computed right away, with
`Ledger.meet` for all demands in between.
-/

namespace Ephemera

namespace Ledger

variable {ρ : Type} {bound : Nat} {l : Ledger} {key : Key} {inUse : List Key}
  {f g : Ledger → MemoAction → Outcome Ledger MemoEvent MemoReply}

/-- Two ways to go on from a ledger are the same, and no script comes back. -/
def Same (l : Ledger) (o o' : Outcome Ledger MemoEvent ρ) : Prop :=
  o = o' ∧ o.state.scripts.count ≤ l.scripts.count

/-- Actions are the same while at most so many scripts are left. -/
def Agree (bound : Nat) (f g : Ledger → MemoAction → Outcome Ledger MemoEvent MemoReply) : Prop :=
  ∀ (action : MemoAction) (l : Ledger), l.scripts.count ≤ bound → Same l (f l action) (g l action)

/-! ## Plans -/

theorem same_apart {plans : List (Plan MemoAction)}
    (h : ∀ plan ∈ plans, ∀ l : Ledger, l.scripts.count ≤ bound →
      Same l (plan.run f l) (plan.run g l)) (l : Ledger) (hcount : l.scripts.count ≤ bound) :
    Same l (Plan.runApart f l plans) (Plan.runApart g l plans) := by
  induction plans generalizing l with
  | nil => exact ⟨rfl, Nat.le_refl _⟩
  | cons plan plans ih =>
    obtain ⟨hplan, hplans⟩ := List.forall_mem_cons.mp h
    obtain ⟨heq, hle⟩ := hplan l hcount
    obtain ⟨heqs, hles⟩ := ih hplans _ (Nat.le_trans hle hcount)
    rw [Plan.runApart, Plan.runApart, ← heq, ← heqs]
    exact ⟨rfl, Nat.le_trans hles hle⟩

theorem same_together {plans : List (Plan MemoAction)}
    (h : ∀ plan ∈ plans, ∀ l : Ledger, l.scripts.count ≤ bound →
      Same l (plan.run f l) (plan.run g l)) (l : Ledger) (hcount : l.scripts.count ≤ bound) :
    Same l (Plan.runTogether f l plans) (Plan.runTogether g l plans) := by
  induction plans generalizing l with
  | nil => exact ⟨rfl, Nat.le_refl _⟩
  | cons plan plans ih =>
    obtain ⟨hplan, hplans⟩ := List.forall_mem_cons.mp h
    obtain ⟨heq, hle⟩ := hplan l hcount
    obtain ⟨heqs, hles⟩ := ih hplans _ (Nat.le_trans hle hcount)
    rw [Plan.runTogether, Plan.runTogether, ← heq]
    dsimp only
    cases (plan.run f l).result with
    | error fault => exact ⟨rfl, hle⟩
    | ok reply =>
      dsimp only
      rw [← heqs]
      exact ⟨rfl, Nat.le_trans hles hle⟩

/-- Plans are the same if actions are. -/
theorem Agree.run (h : Agree bound f g) : ∀ (plan : Plan MemoAction) (l : Ledger),
    l.scripts.count ≤ bound → Same l (plan.run f l) (plan.run g l)
  | .act action, l, hcount => by
    obtain ⟨heq, hle⟩ := h action l hcount
    rw [Plan.run, Plan.run, ← heq]
    exact ⟨rfl, hle⟩
  | .apart plans, l, hcount => by
    obtain ⟨heq, hle⟩ := same_apart (fun plan _ => h.run plan) l hcount
    rw [Plan.run, Plan.run, ← heq]
    exact ⟨rfl, hle⟩
  | .together plans, l, hcount => by
    obtain ⟨heq, hle⟩ := same_together (fun plan _ => h.run plan) l hcount
    rw [Plan.run, Plan.run, ← heq]
    exact ⟨rfl, hle⟩

/-! ## Computations -/

theorem Agree.carryOut (h : Agree bound f g) (plans : List (Plan MemoAction)) (l : Ledger)
    (hcount : l.scripts.count ≤ bound) : Same l (l.carryOut f plans) (l.carryOut g plans) := by
  induction plans generalizing l with
  | nil => exact ⟨rfl, Nat.le_refl _⟩
  | cons plan plans ih =>
    obtain ⟨heq, hle⟩ := h.run plan l hcount
    obtain ⟨heqs, hles⟩ := ih _ (Nat.le_trans hle hcount)
    rw [Ledger.carryOut, Ledger.carryOut, ← heq]
    dsimp only
    cases (plan.run f l).result with
    | error fault => exact ⟨rfl, hle⟩
    | ok reply =>
      dsimp only
      rw [← heqs]
      exact ⟨rfl, Nat.le_trans hles hle⟩

/-- A computation without a script takes no value away; any other one uses a script up. -/
theorem same_compute (h : ∀ script left, l.scripts.next? key.name = some (script, left) →
      Agree left.count f g) :
    l.compute f key = l.compute g key ∧
      ((l.compute f key).state.removals = l.removals ∧ (l.compute f key).state.scripts = l.scripts ∨
        (l.compute f key).state.scripts.count < l.scripts.count) := by
  cases hnext : l.scripts.next? key.name with
  | none =>
    rw [compute_of_none hnext, compute_of_none hnext]
    exact ⟨rfl, .inl ⟨rfl, rfl⟩⟩
  | some pair =>
    obtain ⟨script, left⟩ := pair
    obtain ⟨heq, hle⟩ := (h script left hnext).carryOut script.plans (l.begin left)
      (Nat.le_refl _)
    have hfewer : ((l.begin left).carryOut f script.plans).state.scripts.count
        < l.scripts.count := by
      have hcount := Scripts.count_of_next? hnext
      have hleft : (l.begin left).scripts.count = left.count := rfl
      omega
    cases hresult : ((l.begin left).carryOut f script.plans).result with
    | error fault =>
      rw [compute_of_error hnext hresult, compute_of_error hnext (heq ▸ hresult), ← heq]
      exact ⟨rfl, .inr hfewer⟩
    | ok _ =>
      rw [compute_of_ok hnext hresult, compute_of_ok hnext (heq ▸ hresult), ← heq]
      exact ⟨rfl, .inr hfewer⟩

theorem same_direct (h : ∀ script left, l.scripts.next? key.name = some (script, left) →
      Agree left.count f g) : Same l (l.direct f key) (l.direct g key) := by
  obtain ⟨heq, hscripts⟩ := same_compute h
  rw [direct, direct, ← heq]
  refine ⟨rfl, ?_⟩
  rcases hscripts with ⟨-, hscripts⟩ | hfewer
  · exact Nat.le_of_eq (congrArg Scripts.count hscripts)
  · exact Nat.le_of_lt hfewer

/-- A demand is repeated only when a script was used up. -/
theorem same_round {again again' : Ledger → Outcome Ledger MemoEvent MemoReply}
    (h : ∀ script left, l.scripts.next? key.name = some (script, left) → Agree left.count f g)
    (hagain : ∀ l' : Ledger, l'.scripts.count < l.scripts.count → Same l' (again l') (again' l')) :
    Same l (l.round f again key) (l.round g again' key) := by
  by_cases hbarred : l.barred = true
  · rw [round_of_barred hbarred, round_of_barred hbarred]
    exact ⟨rfl, Nat.le_refl _⟩
  obtain ⟨heq, hscripts⟩ := same_compute h
  have hle : (l.compute f key).state.scripts.count ≤ l.scripts.count := by
    rcases hscripts with ⟨-, hscripts⟩ | hfewer
    · exact Nat.le_of_eq (congrArg Scripts.count hscripts)
    · exact Nat.le_of_lt hfewer
  rw [round, round, if_neg hbarred, if_neg hbarred, ← heq]
  dsimp only
  rcases (l.compute f key).result with fault | message | value
  · exact ⟨rfl, hle⟩
  · exact ⟨rfl, hle⟩
  · dsimp only
    rw [keep, keep]
    cases (l.compute f key).state.values key with
    | some earlier => exact ⟨rfl, hle⟩
    | none =>
      dsimp only
      by_cases hremovals : (l.compute f key).state.removals key = l.removals key
      · rw [if_pos hremovals, if_pos hremovals]
        exact ⟨rfl, hle⟩
      · rw [if_neg hremovals, if_neg hremovals]
        -- a value was taken away, which only a script can do
        have hfewer := hscripts.resolve_left fun h => hremovals (congrFun h.1 key)
        obtain ⟨heq', hle'⟩ := hagain _ hfewer
        rw [← heq']
        exact ⟨rfl, Nat.le_trans hle' hle⟩

/-! ## Demands -/

theorem scripts_brief (l : Ledger) (inUse : List Key) (action : BriefAction) :
    (l.brief inUse action).state.scripts = l.scripts := by
  cases action with
  | look name =>
    rw [brief]
    split <;> rfl
  | forget name =>
    have hpin : ∀ key, (l.pin key).scripts = l.scripts := by
      intro key
      rw [pin]
      split <;> rfl
    rw [brief]
    split
    · rfl
    · split
      · exact hpin _
      · exact hpin _
  | key action | count | isEmpty | capacity | describe isExpanded => rfl

theorem agree_act {serve serve' : Bool → List Key → Key → Ledger →
      Outcome Ledger MemoEvent MemoReply}
    (h : ∀ (isKept : Bool) (key : Key) (l : Ledger), l.scripts.count ≤ bound →
      Same l (serve isKept inUse key l) (serve' isKept inUse key l)) :
    Agree bound (act serve inUse) (act serve' inUse) := by
  intro action l hcount
  have hdemand : ∀ key,
      Same l (l.demand (serve true inUse) key) (l.demand (serve' true inUse) key) := by
    intro key
    rw [demand, demand]
    cases l.values key with
    | some value => exact ⟨rfl, Nat.le_refl _⟩
    | none => exact h true key l hcount
  -- all three ways of demanding end in the service of one key, or before it
  cases action with
  | brief action =>
    exact ⟨rfl, Nat.le_of_eq (congrArg Scripts.count (l.scripts_brief inUse action))⟩
  | demand how name =>
    cases how with
    | held =>
      rw [act, act]
      split
      · exact ⟨rfl, Nat.le_refl _⟩
      · exact hdemand _
    | handle =>
      rw [act, act]
      split
      · exact ⟨rfl, Nat.le_refl _⟩
      · exact hdemand _
    | unkept =>
      rw [act, act]
      split
      · exact ⟨rfl, Nat.le_refl _⟩
      · exact h false _ l hcount

/-- One more script that may be used up does not matter if there is none. -/
theorem same_serve_succ (n : Nat) (isKept : Bool) (inUse : List Key) (key : Key) (l : Ledger)
    (hcount : l.scripts.count ≤ n) :
    Same l (serve n isKept inUse key l) (serve (n + 1) isKept inUse key l) := by
  induction n generalizing isKept inUse key l with
  | zero =>
    -- no script is left, so no plan of one is ever carried out
    have hnone : ∀ {f g} script left, l.scripts.next? key.name = some (script, left) →
        Agree left.count f g := by
      intro f g script left h
      have := Scripts.count_of_next? h
      omega
    cases isKept with
    | true => exact same_round hnone fun l' hfewer => by omega
    | false => exact same_direct hnone
  | succ n ih =>
    -- a script that begins is used up, and the rest has one script less
    have hagree : ∀ script left, l.scripts.next? key.name = some (script, left) →
        Agree left.count (act (serve n) (key :: inUse)) (act (serve (n + 1)) (key :: inUse)) := by
      intro script left h
      have := Scripts.count_of_next? h
      exact agree_act fun isKept key l hcount' => ih isKept _ key l (by omega)
    cases isKept with
    | true => exact same_round hagree fun l' hfewer => ih true inUse key l' (by omega)
    | false => exact same_direct hagree

/-- The number of scripts that may be used up does not matter if there are no more. -/
theorem same_serve {n : Nat} (isKept : Bool) (inUse : List Key) (key : Key) {l : Ledger}
    (hcount : l.scripts.count ≤ n) :
    Same l (meet isKept inUse key l) (serve n isKept inUse key l) := by
  induction hcount with
  | refl =>
    obtain ⟨-, hle⟩ := same_serve_succ _ isKept inUse key l (Nat.le_refl _)
    exact ⟨rfl, hle⟩
  | @step n hcount ih =>
    obtain ⟨heq, -⟩ := same_serve_succ n isKept inUse key l hcount
    exact ⟨ih.1.trans heq, ih.2⟩

theorem agree_meet (n : Nat) (inUse : List Key) :
    Agree n (act meet inUse) (act (serve n) inUse) :=
  agree_act fun isKept key _ hcount => same_serve isKept inUse key hcount

/-- A value that is to be kept is computed with the same rules for all demands in between. -/
theorem meet_kept (inUse : List Key) (key : Key) (l : Ledger) : meet true inUse key l
    = l.round (act meet (key :: inUse)) (meet true inUse key) key := by
  let n := l.scripts.count
  obtain ⟨heq, -⟩ := same_serve (n := n + 1) true inUse key (Nat.le_succ n)
  rw [heq]
  refine (same_round ?_ ?_).1.symm
  · intro script left h
    have hcount : left.count ≤ n := Nat.le_of_succ_le (Nat.le_of_eq (Scripts.count_of_next? h))
    exact agree_act fun isKept key l' hcount' =>
      same_serve isKept _ key (Nat.le_trans hcount' hcount)
  · intro l' hfewer
    exact same_serve true inUse key (Nat.le_of_lt hfewer)

/-- The same for a value that is not to be kept. -/
theorem meet_unkept (inUse : List Key) (key : Key) (l : Ledger) :
    meet false inUse key l = l.direct (act meet (key :: inUse)) key := by
  let n := l.scripts.count
  obtain ⟨heq, -⟩ := same_serve (n := n + 1) false inUse key (Nat.le_succ n)
  rw [heq]
  refine (same_direct ?_).1.symm
  intro script left h
  have hcount : left.count ≤ n := Nat.le_of_succ_le (Nat.le_of_eq (Scripts.count_of_next? h))
  exact agree_act fun isKept key l' hcount' => same_serve isKept _ key (Nat.le_trans hcount' hcount)

end Ledger

end Ephemera

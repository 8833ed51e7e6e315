import Ephemera.Proofs.Ledger.Simulation

/-!
# Plans on the machine and on the ledger

From demands to actions, and from actions to plans. A demand starts a computation only together
with a script, and the plans of that script are carried out with one script less; so what is
said of demands (`Serves`) is proved by induction on the number of scripts that are left.
-/

namespace Ephemera

/-! ## Replies -/

theorem Reply.mapAll_eq_map {ρ σ : Type} (f : ρ → σ) (replies : List (Reply ρ)) :
    mapAll f replies = replies.map (Reply.map f) := by
  induction replies with
  | nil => rfl
  | cons reply rest ih => rw [mapAll, ih, List.map_cons]

theorem Reply.visible_several (replies : List (Reply MemoReply)) :
    (Reply.several replies).visible = .several (replies.map Reply.visible) := by
  rw [visible, map, mapAll_eq_map]
  rfl

theorem Reply.visible_ofResult (result : Except Fault (Reply MemoReply)) :
    (ofResult result).visible = ofResult (result.map visible) := by
  cases result <;> rfl

namespace Machine

open Ledger (act serve)

variable {w w' : Scene} {origin : Plan MemoAction} {stack : List Frame} {key : Key}
  {m m' : Machine} {bound n : Nat}

/-! ## Several plans -/

/-- From a state on, the machine ends several plans as the outcome says. The replies so far, the
latest first, go before the others. -/
def EndsAll (origin : Plan MemoAction) (replies : List (Reply MemoReply)) (w : Scene)
    (stack : List Frame) (m : Machine)
    (o : Outcome Ledger MemoEvent (List (Reply MemoReply))) : Prop :=
  ∃ (result : Except Fault (List (Reply MemoReply))) (w' : Scene),
    Steps m (resume origin (result.map fun others => .several (replies.reverse ++ others)) w'
      stack) ∧ result.map (List.map Reply.visible) = o.result ∧ o.Matches w w'

theorem EndsAll.ends {o : Outcome Ledger MemoEvent (List (Reply MemoReply))}
    (h : EndsAll origin [] w stack m o) :
    Ends origin w stack m ⟨o.state, o.events, o.result.map .several⟩ := by
  obtain ⟨result, w', hsteps, hresult, hmatches⟩ := h
  refine ⟨result.map .several, w', hsteps, ?_, hmatches.ledger, hmatches.visible⟩
  rw [← hresult]
  cases result with
  | error fault => rfl
  | ok replies => exact congrArg Except.ok (Reply.visible_several replies)

/-- No plan is left, so the replies are handed on. -/
theorem EndsAll.nil (origin : Plan MemoAction) (isShielded : Bool)
    (replies : List (Reply MemoReply)) (w : Scene) (stack : List Frame) :
    EndsAll origin replies w stack ⟨w, .running (.several origin isShielded [] replies) stack⟩
      ⟨w.session.ledger, [], .ok []⟩ := by
  refine ⟨.ok [], w, ?_, rfl, rfl, (List.append_nil _).symm⟩
  have hlast : Steps _ (deliver origin (.several replies.reverse) w stack) :=
    steps_step w (.several origin isShielded [] replies) stack
  rw [← List.append_nil replies.reverse] at hlast
  exact hlast

/-- One more plan has come to its end. -/
theorem EndsAll.cons {ρ : Type} {o : Outcome Ledger MemoEvent ρ}
    {os : Outcome Ledger MemoEvent (List (Reply MemoReply))} {reply : Reply MemoReply}
    {replies : List (Reply MemoReply)} (h : EndsAll origin (reply :: replies) w' stack m' os)
    (hsteps : Steps m m') (hmatches : o.Matches w w') :
    EndsAll origin replies w stack m
      ⟨os.state, o.events ++ os.events, os.result.map (reply.visible :: ·)⟩ := by
  obtain ⟨result, w'', hsteps', hresult, hmatches'⟩ := h
  refine ⟨result.map (reply :: ·), w'', ?_, ?_, hmatches'.ledger, ?_⟩
  · apply hsteps.trans
    cases result with
    | error fault => exact hsteps'
    | ok others =>
      -- replies are kept in reverse while plans are pending
      have happend : (reply :: replies).reverse ++ others = replies.reverse ++ reply :: others := by
        rw [List.reverse_cons, List.append_assoc]
        rfl
      change Steps m' (deliver origin (.several ((reply :: replies).reverse ++ others)) w'' stack)
        at hsteps'
      rwa [happend] at hsteps'
  · rw [← hresult]
    cases result <;> rfl
  · rw [hmatches'.visible, hmatches.visible, List.append_assoc]

section

variable {act : Ledger → MemoAction → Outcome Ledger MemoEvent MemoReply} {isShielded : Bool}
  {plan : Plan MemoAction} {pending : List (Plan MemoAction)} {replies : List (Reply MemoReply)}

/-- The first of several plans is carried out. -/
theorem first_steps (hplan : Follows act bound (keysInUse stack) plan)
    (hcount : w.session.scripts.count ≤ bound)
    (hsecure : (⟨w, .running (.several origin isShielded (plan :: pending) replies) stack⟩ :
      Machine).Secure) :
    ∃ (result : Except Fault (Reply MemoReply)) (w' : Scene),
      Steps ⟨w, .running (.several origin isShielded (plan :: pending) replies) stack⟩
        (resume plan result w' (.several origin isShielded pending replies :: stack)) ∧
        result.map Reply.visible = (plan.run act w.session.ledger).result ∧
          (plan.run act w.session.ledger).Matches w w' ∧ w'.session.scripts.count ≤ bound := by
  have hstart := steps_step w (.several origin isShielded (plan :: pending) replies) stack
  obtain ⟨result, w', hsteps, hresult, hmatches⟩ := hplan w
    (.several origin isShielded pending replies :: stack) rfl hsecure.sound.scene.pending_several
    hcount (hsecure.steps hstart)
  have hall := hstart.trans hsteps
  refine ⟨result, w', hall, hresult, hmatches, ?_⟩
  have hlater := (Steps.later hall).scripts
  cases result with
  | error fault =>
    rw [resume, scene_unwind] at hlater
    exact Nat.le_trans hlater hcount
  | ok reply =>
    rw [resume, session_deliver] at hlater
    exact Nat.le_trans hlater hcount

/-- Plans that are shielded from each other come to their ends one after the other. -/
theorem apart_endsAll (hplans : ∀ plan ∈ pending, Follows act bound (keysInUse stack) plan)
    (hcount : w.session.scripts.count ≤ bound)
    (hsecure : (⟨w, .running (.several origin true pending replies) stack⟩ : Machine).Secure) :
    EndsAll origin replies w stack ⟨w, .running (.several origin true pending replies) stack⟩
      (Plan.runApart act w.session.ledger pending) := by
  induction pending generalizing w replies with
  | nil =>
    rw [Plan.runApart]
    exact .nil origin true replies w stack
  | cons plan pending ih =>
    obtain ⟨hplan, hplans⟩ := List.forall_mem_cons.mp hplans
    obtain ⟨result, w', hsteps, hresult, hmatches, hcount'⟩ := first_steps hplan hcount hsecure
    have hresume : resume plan result w' (.several origin true pending replies :: stack)
        = ⟨w', .running (.several origin true pending (.ofResult result :: replies)) stack⟩ := by
      cases result <;> rfl
    rw [hresume] at hsteps
    have hrest := ih hplans hcount' (hsecure.steps hsteps)
    rw [hmatches.ledger] at hrest
    rw [Plan.runApart, ← hresult, ← Reply.visible_ofResult]
    exact hrest.cons hsteps hmatches

/-- Plans that share their fate come to their ends up to the first fault. -/
theorem together_endsAll (hplans : ∀ plan ∈ pending, Follows act bound (keysInUse stack) plan)
    (hcount : w.session.scripts.count ≤ bound)
    (hsecure : (⟨w, .running (.several origin false pending replies) stack⟩ : Machine).Secure) :
    EndsAll origin replies w stack ⟨w, .running (.several origin false pending replies) stack⟩
      (Plan.runTogether act w.session.ledger pending) := by
  induction pending generalizing w replies with
  | nil =>
    rw [Plan.runTogether]
    exact .nil origin false replies w stack
  | cons plan pending ih =>
    obtain ⟨hplan, hplans⟩ := List.forall_mem_cons.mp hplans
    obtain ⟨result, w', hsteps, hresult, hmatches, hcount'⟩ := first_steps hplan hcount hsecure
    rw [Plan.runTogether, ← hresult]
    cases result with
    | error fault => exact ⟨.error fault, w', hsteps, rfl, hmatches.ledger, hmatches.visible⟩
    | ok reply =>
      have hrest := ih hplans hcount' (hsecure.steps hsteps)
      rw [hmatches.ledger] at hrest
      exact hrest.cons hsteps hmatches

/-- It is enough to follow actions. -/
theorem follows_of_actions {inUse : List Key}
    (hactions : ∀ action, Follows act bound inUse (.act action)) :
    ∀ plan, Follows act bound inUse plan
  | .act action => hactions action
  | .apart plans => by
    rintro w stack rfl hs hcount hsecure
    have hplans : ∀ plan ∈ plans, Follows act bound (keysInUse stack) plan :=
      fun plan _ => follows_of_actions hactions plan
    rw [Plan.run]
    exact (apart_endsAll hplans hcount hsecure).ends
  | .together plans => by
    rintro w stack rfl hs hcount hsecure
    have hplans : ∀ plan ∈ plans, Follows act bound (keysInUse stack) plan :=
      fun plan _ => follows_of_actions hactions plan
    rw [Plan.run]
    exact (together_endsAll hplans hcount hsecure).ends

end

/-! ## Demands -/

/-- With at most so many scripts left, demands are met as they are on the ledger. -/
structure Serves (n : Nat) : Prop where
  /-- a value is computed and kept -/
  kept : ∀ (origin : Plan MemoAction) (key : Key) (w : Scene) (rest : List Frame),
    w.Sound (key :: keysInUse rest) rest → w.session.scripts.count ≤ n →
      w.session.ledger.values key = none → (enter origin key w rest).Secure →
        Meets origin w rest (enter origin key w rest)
          (serve n true (keysInUse rest) key w.session.ledger)
  /-- a value is computed past the memo -/
  unkept : ∀ (origin : Plan MemoAction) (key : Key) (w : Scene) (rest : List Frame),
    w.Sound (key :: keysInUse rest) rest → w.session.scripts.count ≤ n →
      (compute origin key none w rest).Secure →
        Meets origin w rest (compute origin key none w rest)
          (serve n false (keysInUse rest) key w.session.ledger)

/-- A demand of a living key is met as it is on the ledger. -/
theorem Serves.demand (h : Serves n) (hs : w.Sound (keysInUse stack) stack)
    (hkey : key ∈ w.session.keys.keys) (hlive : w.session.isLive (keysInUse stack) key = true)
    (hcount : w.session.scripts.count ≤ n) (hsecure : (demand origin key w stack).Secure) :
    Meets origin w stack (demand origin key w stack)
      (w.session.ledger.demand (serve n true (keysInUse stack)) key) := by
  have hs' := hs.use hkey hlive
  have hvalue : w.session.memo.value? (w.session.isLive (key :: keysInUse stack)) key
      = w.session.ledger.values key :=
    hs'.session.memo.value?_eq (hs'.session.knows hkey)
      (MemoSession.isLive_of_mem List.mem_cons_self)
  rw [Machine.demand, hvalue] at hsecure ⊢
  rw [Ledger.demand]
  cases hfound : w.session.ledger.values key with
  | some value => exact Meets.of_eq (.ok (.value value)) w rfl rfl ⟨rfl, (List.append_nil _).symm⟩
  | none =>
    rw [hfound] at hsecure
    exact h.kept origin key w stack hs' hcount hfound hsecure

/-- An action is carried out as it is on the ledger. -/
theorem Serves.act (h : Serves n) (action : MemoAction) (hs : w.Sound (keysInUse stack) stack)
    (hcount : w.session.scripts.count ≤ n) (hsecure : (start w stack (.act action)).Secure) :
    Meets (.act action) w stack (start w stack (.act action))
      (act (serve n) (keysInUse stack) w.session.ledger action) := by
  have hnothing : w.visible = w.visible ++ [] := (List.append_nil _).symm
  cases action with
  | brief action => exact brief_meets hs action
  | demand how name =>
    cases how with
    | held =>
      rw [start] at hsecure ⊢
      rw [Ledger.act, MemoSession.keys_ledger]
      cases hheld : w.session.keys.held? name with
      | none => exact Meets.of_eq (.error (.unheld name)) w rfl rfl ⟨rfl, hnothing⟩
      | some key =>
        rw [hheld] at hsecure
        exact h.demand hs (Keyring.mem_keys_of_held? hheld)
          (MemoSession.isLive_of_holds (Keyring.holds_of_held? hheld)) hcount hsecure
    | handle =>
      -- machine and ledger find the same keys alive
      have hfilter : (w.session.keys.key? name).filter (w.session.ledger.isLive (keysInUse stack))
          = (w.session.keys.key? name).filter (w.session.isLive (keysInUse stack)) := by
        cases hkey : w.session.keys.key? name with
        | none => rfl
        | some key =>
          rw [Option.filter_some, Option.filter_some,
            hs.session.isLive_ledger (Keyring.mem_keys_of_key? hkey)]
      rw [start] at hsecure ⊢
      rw [Ledger.act, MemoSession.keys_ledger, hfilter]
      cases hliving : (w.session.keys.key? name).filter (w.session.isLive (keysInUse stack)) with
      | none => exact Meets.of_eq (.ok (.refused .gone)) w rfl rfl ⟨rfl, hnothing⟩
      | some key =>
        obtain ⟨hname, hlive⟩ := Option.filter_eq_some_iff.mp hliving
        rw [hliving] at hsecure
        exact h.demand hs (Keyring.mem_keys_of_key? hname) hlive hcount hsecure
    | unkept =>
      rw [start] at hsecure ⊢
      rw [Ledger.act, MemoSession.keys_ledger]
      cases hheld : w.session.keys.held? name with
      | none => exact Meets.of_eq (.error (.unheld name)) w rfl rfl ⟨rfl, hnothing⟩
      | some key =>
        rw [hheld] at hsecure
        -- the value is not kept, so the memo is not asked first
        have hs' := hs.use (Keyring.mem_keys_of_held? hheld)
          (MemoSession.isLive_of_holds (Keyring.holds_of_held? hheld))
        exact h.unkept _ key w stack hs' hcount hsecure

/-- Plans are carried out as they are on the ledger. -/
theorem Serves.follows (h : Serves n) {inUse : List Key} (hle : bound ≤ n) :
    ∀ plan, Follows (Ledger.act (serve n) inUse) bound inUse plan := by
  refine follows_of_actions fun action => ?_
  rintro w stack rfl hs hcount hsecure
  rw [Plan.run]
  exact h.act action hs (Nat.le_trans hcount hle) hsecure

theorem serves (n : Nat) : Serves n := by
  induction n with
  | zero =>
    -- no script is left, so none can be found
    have hnone : ∀ {w : Scene} {key : Key} {script : Script} {left : Scripts},
        w.session.scripts.count ≤ 0 →
          w.session.scripts.next? key.name ≠ some (script, left) := by
      intro w key script left hcount h
      have := Scripts.count_of_next? h
      omega
    refine ⟨fun origin key w rest hs hcount hvalue hsecure => ?_,
      fun origin key w rest hs hcount hsecure => ?_⟩
    · refine enter_meets hs hvalue (fun _ _ h => absurd h (hnone hcount)) ?_ hsecure
      intro w' _ hfewer
      omega
    · exact direct_meets hs (fun _ _ h => absurd h (hnone hcount)) hsecure
  | succ n ih =>
    -- a script that is found leaves one less for the demands of its plans
    have hact : ∀ {w : Scene} {key : Key} {inUse : List Key}, w.session.scripts.count ≤ n + 1 →
        ∀ script left, w.session.scripts.next? key.name = some (script, left) →
          ∀ plan, Follows (Ledger.act (serve n) inUse) left.count inUse plan := by
      intro w key inUse hcount script left h
      have := Scripts.count_of_next? h
      exact ih.follows (by omega)
    refine ⟨fun origin key w rest hs hcount hvalue hsecure => ?_,
      fun origin key w rest hs hcount hsecure => direct_meets hs (hact hcount) hsecure⟩
    refine enter_meets hs hvalue (hact hcount) ?_ hsecure
    intro w' hs' hfewer hvalue' hsecure'
    exact ih.kept origin key w' rest hs' (by omega) hvalue' hsecure'

end Machine

end Ephemera

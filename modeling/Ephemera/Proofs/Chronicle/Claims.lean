import Ephemera.Proofs.Chronicle.Annals

/-!
# Computations under way

The computations that are under way on a stack are its `Claim`s. Each of them may have to start
over when it ends, and then begins another one, which has a script or is the last. A computation
with a script has taken it off its list. So what can still begin is no more than the scripts that
are left and the claims, and a demand adds one to that: `budget` counts them together with the
computations that have begun already, and `Annals.budget_le` says what a run adds to it.
-/

namespace Ephemera

/-- A computation that is under way, and its ticket if its value is to be kept. -/
structure Claim where
  /-- its key -/
  key : Key
  /-- its number -/
  call : Nat
  /-- the ticket that it runs for -/
  ticket : Option Ticket

/-- The computation of a frame. -/
def Frame.claim? : Frame → Option Claim
  | several .. => none
  | computing _ key call ticket .. => some ⟨key, call, ticket⟩

/-- The computations on a stack. -/
def claims (stack : List Frame) : List Claim :=
  stack.filterMap Frame.claim?

namespace Machine

variable {s : MemoSession} {w : Scene} {stack rest : List Frame} {top waiting : Frame}
  {origin plan : Plan MemoAction} {key : Key} {call : Nat} {ticket : Option Ticket}
  {pending : List (Plan MemoAction)} {ending : Ending} {deeds : List Deed} {rounds : List Round}
  {calls : List Call} {m m₀ : Machine} {t : Ticket}

@[simp]
theorem claims_several {isShielded : Bool} {replies : List (Reply MemoReply)} :
    claims (.several origin isShielded pending replies :: rest) = claims rest := rfl

@[simp]
theorem claims_computing : claims (.computing origin key call ticket pending ending :: rest)
    = ⟨key, call, ticket⟩ :: claims rest := rfl

/-- A result goes to a stack whose last computations may be over by that. -/
theorem claims_resume (result : Except Fault (Reply MemoReply)) :
    claims (resume origin result w stack).phase.stack <:+ claims stack := by
  cases result with
  | ok reply =>
    rcases stack with _ | ⟨_ | _, rest⟩
    · exact List.nil_suffix
    · exact List.suffix_rfl
    · exact List.suffix_rfl
  | error fault =>
    induction stack with
    | nil => exact List.nil_suffix
    | cons top rest ih =>
      rcases top with ⟨_, _ | _, _, _⟩ | _
      · exact ih
      · exact List.suffix_rfl
      · exact ih.trans (List.suffix_cons ..)

/-- Who waits for a plan is under way as before. -/
theorem claims_of_take? (h : top.take? = some (plan, waiting)) :
    claims (waiting :: rest) = claims (top :: rest) := by
  rcases top with ⟨_, _, _ | _, _⟩ | ⟨_, _, _, _, _ | _, _⟩ <;> cases h <;> rfl

/-- The tickets of computations have generation zero, and are for slots of their keys. -/
theorem Sound.claim (hs : m.Sound) {c : Claim} (hc : c ∈ claims m.phase.stack)
    (ht : c.ticket = some t) : t.generation = 0 ∧
      ∃ slot, m.scene.session.memo.slots[t.slot]? = some slot ∧ slot.key = c.key := by
  obtain ⟨frame, hframe, heq⟩ := List.mem_filterMap.mp hc
  cases frame with
  | several => cases heq
  | computing origin key call ticket pending ending =>
    cases heq
    exact hs.scene.tickets _ hframe t ht

/-! ## How many computations -/

/-- The computations that have begun, the scripts that are left, and the computations that may
start over: what a demand can add to this is one. -/
def budget (s : MemoSession) (stack : List Frame) : Nat :=
  s.calls + s.scripts.count + (claims stack).length

theorem calls_act (s : MemoSession) (inUse : List Key) (action : BriefAction) :
    (s.act inUse action).state.calls = s.calls := by
  cases action <;> simp only [MemoSession.act]
  case look => split <;> rfl
  case forget =>
    split
    · rfl
    · dsimp only
      split <;> rfl

theorem budget_resume (result : Except Fault (Reply MemoReply)) :
    budget (resume origin result w stack).scene.session (resume origin result w stack).phase.stack
      ≤ budget w.session stack := by
  have hclaims : (claims (resume origin result w stack).phase.stack).length
      ≤ (claims stack).length := (claims_resume result).length_le
  simp only [budget, session_resume]
  omega

theorem Proceeds.budget_le (h : Proceeds origin key s stack deeds m) :
    budget m.scene.session m.phase.stack ≤ budget s stack + 1 := by
  cases h with
  | ended events result hmemo hle hge hbegun =>
    refine (budget_resume result).trans ?_
    simp only [budget]
    omega
  | began events ticket hmemo hnext hticket =>
    have hcount := Scripts.count_of_next? hnext
    simp only [budget, Phase.stack, claims_computing, List.length_cons]
    omega

theorem Opens.budget_le (h : Opens s stack plan deeds m) :
    budget m.scene.session m.phase.stack
      ≤ budget s stack + (startCalls s plan).countP Call.isDemand := by
  cases h with
  | plans => exact Nat.le_add_right ..
  | brief action events result =>
    refine (budget_resume result).trans ?_
    simp only [budget, calls_act, scripts_act]
    omega
  | unmet how name events result => exact (budget_resume result).trans (Nat.le_add_right ..)
  | @demanded how name key _ _ hkey hheld h =>
    have hone : (startCalls s (.act (.demand how name))).countP Call.isDemand = 1 := by
      cases how with
      | handle => rfl
      | held | unkept =>
        have hheld := hheld.resolve_left (by simp)
        rw [startCalls, hheld]
        · rfl
        · simp
    rw [hone]
    exact h.budget_le

theorem Moves.budget_le (h : Moves s top rest deeds m) :
    budget m.scene.session m.phase.stack
      ≤ budget s (top :: rest) + (stepCalls s top).countP Call.isDemand := by
  cases h with
  | done htop events =>
    subst htop
    exact (budget_resume (.ok _)).trans (Nat.le_add_right ..)
  | concludes htop h =>
    subst htop
    exact h.budget_le.trans (Nat.le_add_right ..)
  | @opens plan waiting _ _ htake h =>
    have hsame : budget s (top :: rest) = budget s (waiting :: rest) := by
      simp only [budget, claims_of_take? htake]
    rw [stepCalls, htake, hsame]
    exact h.budget_le

/-- A run adds one for each demand that is made. -/
theorem Annals.budget_le (h : Annals m₀ deeds rounds calls m) :
    budget m.scene.session m.phase.stack
      ≤ budget m₀.scene.session m₀.phase.stack + calls.countP Call.isDemand := by
  induction h with
  | here => exact Nat.le_refl _
  | step h ih =>
    refine (moves_step _ _ _).budget_le.trans ?_
    rw [List.countP_append, ← Nat.add_assoc]
    exact Nat.add_le_add_right ih _
  | start h plan ih =>
    refine (opens_start (w := ⟨_, []⟩) plan).budget_le.trans ?_
    rw [List.countP_append, ← Nat.add_assoc]
    exact Nat.add_le_add_right ih _

end Machine

end Ephemera

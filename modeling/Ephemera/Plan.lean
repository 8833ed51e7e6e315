import Ephemera.Fault

/-!
# Plans

A plan says what to do: one action, or several plans one after the other. Plans that run
*apart* are shielded from each other, so a fault is the answer of the plan it struck and the
next one runs. Plans that run *together* share their fate: the first fault ends them all.
What was done before a fault stays done.

`Plan.run` carries out a plan for actions that say at once what comes of them; `play` carries
out a list of plans and reports after each of them.
-/

namespace Ephemera

/-- What to do. -/
inductive Plan (α : Type) where
  /-- one action -/
  | act (action : α)
  /-- several plans, each on its own -/
  | apart (plans : List (Plan α))
  /-- several plans until one of them fails -/
  | together (plans : List (Plan α))
deriving Repr

/-- What came of a plan. -/
inductive Reply (ρ : Type) where
  /-- the answer to an action -/
  | single (answer : ρ)
  /-- the replies of several plans, in order -/
  | several (replies : List (Reply ρ))
  /-- a fault struck this plan, and went no further -/
  | struck (fault : Fault)
deriving Repr

/-- What an operation leads to. -/
structure Outcome (σ ε ρ : Type) where
  /-- the state afterwards, also after a fault -/
  state : σ
  /-- what happened, in order -/
  events : List ε
  /-- the answer -/
  result : Except Fault ρ

/-- What is reported after each plan of a list. -/
structure Report (ε ρ : Type) where
  /-- what came of it -/
  reply : Reply ρ
  /-- what happened, in order -/
  events : List ε
  /-- the state afterwards, as a reader sees it -/
  state : String
  /-- the number of living entries afterwards -/
  living : Nat

/-- The numbers from `start` on and before `stop`, `stride` apart. -/
def steps (start stop stride : Nat) : List Nat :=
  List.range' start ((stop - start + (stride - 1)) / stride) stride

/-- A fault that reaches no one else is the reply. -/
def Reply.ofResult {ρ : Type} : Except Fault (Reply ρ) → Reply ρ
  | .ok reply => reply
  | .error fault => .struck fault

namespace Plan

variable {α σ ε ρ : Type}

mutual

/-- Carries out a plan. -/
def run (act : σ → α → Outcome σ ε ρ) (s : σ) : Plan α → Outcome σ ε (Reply ρ)
  | .act action =>
    let o := act s action
    ⟨o.state, o.events, o.result.map .single⟩
  | .apart plans =>
    let o := runApart act s plans
    ⟨o.state, o.events, o.result.map .several⟩
  | .together plans =>
    let o := runTogether act s plans
    ⟨o.state, o.events, o.result.map .several⟩

/-- Carries out plans that are shielded from each other. -/
def runApart (act : σ → α → Outcome σ ε ρ) (s : σ) :
    List (Plan α) → Outcome σ ε (List (Reply ρ))
  | [] => ⟨s, [], .ok []⟩
  | plan :: rest =>
    let o := plan.run act s
    let os := runApart act o.state rest
    ⟨os.state, o.events ++ os.events, os.result.map (Reply.ofResult o.result :: ·)⟩

/-- Carries out plans until one of them fails. -/
def runTogether (act : σ → α → Outcome σ ε ρ) (s : σ) :
    List (Plan α) → Outcome σ ε (List (Reply ρ))
  | [] => ⟨s, [], .ok []⟩
  | plan :: rest =>
    let o := plan.run act s
    match o.result with
    | .error fault => ⟨o.state, o.events, .error fault⟩
    | .ok reply =>
      let os := runTogether act o.state rest
      ⟨os.state, o.events ++ os.events, os.result.map (reply :: ·)⟩

end

end Plan

/-- Carries out plans one after the other and reports after each. `run` carries out one,
and `survey` looks at the state: its text, and the number of living entries. -/
def play {σ π ε ρ : Type} (run : σ → π → Outcome σ ε (Reply ρ)) (survey : σ → String × Nat)
    (s : σ) : List π → List (Report ε ρ)
  | [] => []
  | plan :: rest =>
    let o := run s plan
    let (text, living) := survey o.state
    ⟨Reply.ofResult o.result, o.events, text, living⟩ :: play run survey o.state rest

end Ephemera

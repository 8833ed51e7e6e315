import Ephemera.Keyring
import Ephemera.Plan
import Ephemera.Refusal

/-!
# Scripts of computations

What a caller of a memo may do, and what a computation does while it runs: a computation is
itself a caller, which carries out the plans of its script and then ends in one of four ways.
The first computation of a key runs the first script listed for it, the second one the
second, and so on; a computation for which none is left does nothing and ends at once.

`Scripts.weight` counts what the remaining scripts can still do. Taking a script off its
list moves the script's weight from the list to whoever runs it, which is what keeps nested
computations from going on for ever.
-/

namespace Ephemera

/-- How a value is demanded of a memo. -/
inductive Demand where
  /-- by a key that the caller holds -/
  | held
  /-- by a handle that may refer to nothing -/
  | handle
  /-- by a key that the caller holds, past the memo: the value is computed and not kept -/
  | unkept
deriving Repr, DecidableEq

/-- What is done without any computation. -/
inductive BriefAction where
  /-- something with the caller's keys -/
  | key (action : KeyAction)
  /-- ask for a value that is there -/
  | look (name : String)
  /-- take the value of a key away -/
  | forget (name : String)
  /-- count the living keys that have a value -/
  | count
  /-- ask whether no living key has a value -/
  | isEmpty
  /-- ask for the number of chains -/
  | capacity
  /-- ask for the memo's text -/
  | describe (isExpanded : Bool)
deriving Repr, DecidableEq

/-- What a caller may do. -/
inductive MemoAction where
  /-- something that computes nothing -/
  | brief (action : BriefAction)
  /-- demand the value of a key -/
  | demand (how : Demand) (name : String)
deriving Repr, DecidableEq

/-- The answers. -/
inductive MemoReply where
  /-- to an action on keys or a question; nothing to making a key -/
  | flag (answer : Option Bool)
  /-- the value that was demanded -/
  | value (value : String)
  /-- there is no value -/
  | refused (refusal : AccessRefusal)
  /-- the failure of a computation that was run past the memo -/
  | failed (message : String)
  /-- a value, if there is one -/
  | seen (value : Option String)
  /-- a number of keys -/
  | count (number : Nat)
  /-- a number of chains -/
  | capacity (number : Nat)
  /-- a text -/
  | text (text : String)
deriving Repr, DecidableEq

/-- How a computation ends. -/
inductive Ending where
  /-- with a value of its own choice -/
  | value (value : String)
  /-- with the value that its key and its number make -/
  | standard
  /-- with a failure -/
  | fail (message : String)
  /-- by giving up -/
  | giveUp (message : String)
deriving Repr, DecidableEq

/-- What a computation does. -/
structure Script where
  /-- what it carries out, in order -/
  plans : List (Plan MemoAction)
  /-- how it ends -/
  ending : Ending
deriving Repr

/-- The scripts that are left, by the names of their keys. -/
abbrev Scripts := List (String × List Script)

mutual

/-- How much there is to do in a plan. -/
def Plan.size {α : Type} : Plan α → Nat
  | .act _ => 1
  | .apart plans => sizeAll plans + 2
  | .together plans => sizeAll plans + 2

/-- How much there is to do in several plans. -/
def Plan.sizeAll {α : Type} : List (Plan α) → Nat
  | [] => 0
  | plan :: rest => plan.size + sizeAll rest

end

/-- How much there is to do in a script, its end included. -/
def Script.weight (s : Script) : Nat :=
  Plan.sizeAll s.plans + 1

namespace Scripts

/-- How much there is to do in the scripts of one key. -/
def weightOf : List Script → Nat
  | [] => 0
  | script :: rest => script.weight + weightOf rest

/-- How much there is to do in all scripts that are left. -/
def weight : Scripts → Nat
  | [] => 0
  | (_, scripts) :: rest => weightOf scripts + weight rest

/-- The next script of a key, and what is left without it. -/
def next? (name : String) : Scripts → Option (Script × Scripts)
  | [] => none
  | (owner, scripts) :: rest =>
    if owner = name then
      match scripts with
      | [] => none
      | script :: left => some (script, (owner, left) :: rest)
    else (next? name rest).map fun (script, left) => (script, (owner, scripts) :: left)

/-- Taking a script off its list moves its weight and loses none. -/
theorem weight_of_next? {name : String} {s : Scripts} {script : Script} {left : Scripts}
    (h : s.next? name = some (script, left)) : script.weight + weight left = weight s := by
  induction s generalizing script left with
  | nil => cases h
  | cons entry rest ih =>
    obtain ⟨owner, scripts⟩ := entry
    unfold next? at h
    split at h
    · split at h
      · cases h
      · cases h
        simp only [weight, weightOf]
        omega
    · obtain ⟨⟨script', left'⟩, h', hpair⟩ := Option.map_eq_some_iff.mp h
      cases hpair
      have := ih h'
      simp only [weight]
      omega

end Scripts

end Ephemera

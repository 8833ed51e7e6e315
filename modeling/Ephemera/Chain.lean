/-!
# Links and chains

A link refers to something without keeping it alive, and remembers the hash under which
it was put in. A chain is a list of links, the newest first. Links never change: a chain
is changed by building another one.

What a link refers to may have died; the link is then *cleared*. Whether something is
alive is not known to a chain, so every function here takes the test `live` from its
caller. `candidates` are the only entries that a search ever looks at: those alive
under the hash that is asked for.
-/

namespace Ephemera

/-- A reference from a table that does not keep its target alive. -/
structure Link (α : Type) where
  /-- what the link refers to -/
  referent : α
  /-- the hash under which it was put in -/
  hash : UInt64
deriving Repr, DecidableEq

/-- Links of one chain, the newest first. -/
abbrev Chain (α : Type) := List (Link α)

/-- The elements up to and including the `n`-th one that passes a test: what a search
looks at when it stops at its `n`-th hit. -/
def upTo {α : Type} (hit : α → Bool) : Nat → List α → List α
  | 0, _ => []
  | _, [] => []
  | n + 1, a :: rest => a :: upTo hit (if hit a then n else n + 1) rest

namespace Chain

variable {α : Type} (live : α → Bool)

/-- The links whose targets are alive, in order. -/
def living (chain : Chain α) : Chain α :=
  chain.filter fun link => live link.referent

/-- The number of links whose targets are gone. -/
def cleared (chain : Chain α) : Nat :=
  chain.countP fun link => !live link.referent

/-- The living targets under a hash, in order. -/
def candidates (hash : UInt64) (chain : Chain α) : List α :=
  (chain.filter fun link => link.hash == hash && live link.referent).map Link.referent

/-- Every link is alive or cleared. -/
theorem length_living_add_cleared (chain : Chain α) :
    (chain.living live).length + chain.cleared live = chain.length := by
  induction chain with
  | nil => rfl
  | cons link rest ih =>
    simp only [living, cleared] at ih ⊢
    cases h : live link.referent <;> simp [h] <;> omega

end Chain

end Ephemera

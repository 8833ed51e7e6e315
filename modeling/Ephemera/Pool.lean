import Ephemera.Table.Obtain
import Ephemera.Text.Layout

/-!
# Pools of shared instances

A pool hands out instances of immutable values, so that values which are alike are one
object. A value is asked for by a request of some form `κ`, and `Shareable` says what has to
be known about that form: the hash, which values answer a request, and the value that is made
if none does. As long as an instance is alive, every request that its value answers under the
same hash is met by that very instance.

Instances are numbered by their makers; a number stands for one instance for ever.
-/

namespace Ephemera

/-- Values of type `τ` that are asked for by requests of the form `κ`. -/
class Shareable (κ : outParam Type) (τ : Type) where
  /-- the hash under which values for the request are kept -/
  hash : κ → UInt64
  /-- whether a value answers a request -/
  answers : τ → κ → Bool
  /-- the value made for a request -/
  make : κ → τ

/-- One of the values a pool has made. -/
structure Instance (τ : Type) where
  /-- how many instances were made before it -/
  number : Nat
  /-- what it is an instance of -/
  value : τ
deriving Repr, DecidableEq

/-- A table of instances. -/
structure Pool (τ : Type) where
  /-- the links to the instances -/
  table : Table (Instance τ)

/-- The answer to a request. -/
structure Shared (τ : Type) where
  /-- the instance, unless two qualified -/
  outcome : Except Fault (Entry (Instance τ))
  /-- the pool afterwards -/
  pool : Pool τ
  /-- what happened -/
  notes : List (Note (Instance τ))

namespace Pool

variable {κ τ : Type}

/-- An empty pool for a caller who asks for so many chains. -/
def ofCapacity (request : Nat) : Pool τ :=
  ⟨.ofCapacity request⟩

/-- The living instance for a request, or a new one with the given number. A look comes
first, and only if it fails is anything installed. -/
def share [Shareable κ τ] (live : Instance τ → Bool) (number : Nat) (request : κ)
    (p : Pool τ) : Shared τ :=
  let hash := Shareable.hash τ request
  let accepts := fun (found : Instance τ) => Shareable.answers found.value request
  match p.table.search live hash accepts with
  | (some entry, notes) => { outcome := .ok ⟨entry, false⟩, pool := p, notes }
  | (none, notes) =>
    let r := p.table.obtain live hash accepts ⟨number, Shareable.make request⟩
    { outcome := r.outcome, pool := ⟨r.table⟩, notes := notes ++ r.notes }

/-- The number of living instances. -/
def count (live : Instance τ → Bool) (p : Pool τ) : Nat :=
  (p.table.count live fun _ => true).1

/-- The number of chains. -/
def capacity (p : Pool τ) : Nat :=
  p.table.capacity

/-- A pool as a reader sees it. -/
def layout (p : Pool τ) : Text.Layout :=
  .record "Interner" [("capacity", .nat p.table.capacity), ("size_estimate", .nat p.table.size)]
    true

end Pool

end Ephemera

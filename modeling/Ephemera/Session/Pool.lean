import Ephemera.Plan
import Ephemera.Shelf

/-!
# Sessions with a pool

A caller asks a pool for values of some type `τ` by requests of the form `κ`, and keeps
instances in places that it names. An instance is alive while some place holds it. An
instance that the caller does not put anywhere is let go as soon as it is shown.
-/

namespace Ephemera

/-- What a caller may do. -/
inductive PoolAction (κ : Type) where
  /-- ask for a value, and perhaps keep the instance in a place -/
  | share (request : κ) (place : Option String)
  /-- empty a place -/
  | clear (place : String)
  /-- count the living instances -/
  | count
  /-- ask whether no instance is alive -/
  | isEmpty
  /-- ask for the number of chains -/
  | capacity
  /-- ask for the pool's text -/
  | describe (isExpanded : Bool)
deriving Repr, DecidableEq

/-- The answers. -/
inductive PoolReply (τ : Type) where
  /-- an instance -/
  | instance (inst : Instance τ)
  /-- to a question -/
  | flag (answer : Bool)
  /-- a number of instances -/
  | count (number : Nat)
  /-- a number of chains -/
  | capacity (number : Nat)
  /-- a text -/
  | text (text : String)
deriving Repr, DecidableEq

/-- A pool and the places of its caller. -/
structure PoolSession (τ : Type) where
  /-- the pool -/
  pool : Pool τ
  /-- the places -/
  shelf : Shelf τ
  /-- the number of instances made so far -/
  made : Nat

namespace PoolSession

variable {κ τ : Type}

/-- An empty pool for a caller who asks for so many chains. -/
def ofCapacity (request : Nat) : PoolSession τ :=
  ⟨.ofCapacity request, .empty, 0⟩

/-- Asks for a value and puts the instance in a place. -/
def share [Shareable κ τ] (s : PoolSession τ) (request : κ) (place : Option String) :
    Outcome (PoolSession τ) (Note (Instance τ)) (PoolReply τ) :=
  let r := s.pool.share s.shelf.holds s.made request
  match r.outcome with
  | .error fault => ⟨{ s with pool := r.pool }, r.notes, .error fault⟩
  | .ok entry =>
    -- the place is emptied only now: what it held was still alive during the search
    ⟨{ pool := r.pool
       shelf := s.shelf.put place entry.target
       made := if entry.fresh then s.made + 1 else s.made },
      r.notes, .ok (.instance entry.target)⟩

/-- Carries out one action. -/
def act [Shareable κ τ] (s : PoolSession τ) :
    PoolAction κ → Outcome (PoolSession τ) (Note (Instance τ)) (PoolReply τ)
  | .share request place => s.share request place
  | .clear place =>
    ⟨{ s with shelf := s.shelf.clear place }, [], .ok (.flag (s.shelf.at? place).isSome)⟩
  | .count => ⟨s, [], .ok (.count (s.pool.count s.shelf.holds))⟩
  | .isEmpty => ⟨s, [], .ok (.flag (s.pool.count s.shelf.holds == 0))⟩
  | .capacity => ⟨s, [], .ok (.capacity s.pool.capacity)⟩
  | .describe isExpanded => ⟨s, [], .ok (.text (s.pool.layout.write isExpanded))⟩

/-- The pool's text, and the number of living instances. -/
def survey (s : PoolSession τ) : String × Nat :=
  (s.pool.layout.inline, s.pool.count s.shelf.holds)

/-- Carries out plans and reports after each. -/
def play [Shareable κ τ] (s : PoolSession τ) (plans : List (Plan (PoolAction κ))) :
    List (Report (Note (Instance τ)) (PoolReply τ)) :=
  Ephemera.play (Plan.run act) survey s plans

end PoolSession

end Ephemera

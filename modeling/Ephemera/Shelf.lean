import Ephemera.Pool

/-!
# Shelves

A caller keeps instances in places that it names. A place holds one instance, and an
instance may stand in several places; what stands in none is let go. So the places are
what keeps instances alive.
-/

namespace Ephemera

/-- Places that hold instances, by name. -/
structure Shelf (τ : Type) where
  /-- the instances with the names of their places -/
  places : List (String × Instance τ)

namespace Shelf

variable {τ : Type}

/-- No places in use. -/
def empty : Shelf τ :=
  ⟨[]⟩

/-- The instance in a place. -/
def at? (name : String) (s : Shelf τ) : Option (Instance τ) :=
  s.places.lookup name

/-- Empties a place. -/
def clear (name : String) (s : Shelf τ) : Shelf τ :=
  ⟨s.places.filter fun place => place.1 != name⟩

/-- Puts an instance in a place and lets go of what was there; without a place the
instance is let go at once. -/
def put (name : Option String) (inst : Instance τ) (s : Shelf τ) : Shelf τ :=
  match name with
  | none => s
  | some name => ⟨(name, inst) :: (s.clear name).places⟩

/-- Whether some place holds an instance. -/
def holds (s : Shelf τ) (inst : Instance τ) : Bool :=
  s.places.any fun place => place.2.number == inst.number

end Shelf

end Ephemera

import Ephemera.Hash

/-!
# Keys

A key is an object: its identity is its address, never its text. A caller calls it by
a name, and its number tells when it was made. No two keys of one caller share an
address, so equality of addresses, `Key.same`, is the identity that containers use.
-/

namespace Ephemera

/-- An object that serves as a key, as a component or as an entry. -/
structure Key where
  /-- how many keys were made before it -/
  number : Nat
  /-- what its caller calls it -/
  name : String
  /-- the text it holds -/
  text : String
  /-- where it is -/
  address : UInt64
deriving Repr, DecidableEq

namespace Key

/-- Whether two keys are the same object. -/
def same (k k' : Key) : Bool :=
  k.address == k'.address

/-- The hash of a key is the hash of its address. -/
def hash (k : Key) : UInt64 :=
  addressHash k.address

@[simp]
theorem same_iff {k k' : Key} : k.same k' = true ↔ k.address = k'.address := by
  simp [same]

theorem hash_eq_of_same {k k' : Key} (h : k.same k' = true) : k.hash = k'.hash := by
  simp [hash, same_iff.mp h]

end Key

end Ephemera

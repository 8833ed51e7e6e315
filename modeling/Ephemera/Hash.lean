/-!
# Hashes of addresses

An object is told from others by its address alone, so its hash is a hash of the
address. Addresses are aligned: their low bits are all zero, and those are the bits
that choose a chain. `addressHash` therefore multiplies by an odd constant, which
carries the low bits upwards, and then folds the high half onto the low one.

A composite is hashed by `sequenceHash`: the hash of its head is the seed, and the
hashes of the other parts are folded in from left to right, so the order counts.
All arithmetic is on 64-bit words and wraps.
-/

namespace Ephemera

/-- The odd factor of `addressHash`: 2^64 over the golden ratio. -/
def spreadFactor : UInt64 := 0x9E3779B97F4A7C15

/-- The hash of the object at an address. -/
def addressHash (address : UInt64) : UInt64 :=
  let product := address * spreadFactor
  product ^^^ (product >>> 32)

/-- One step of `sequenceHash`: the hash so far, and the next part's hash. -/
def mixHash (sofar part : UInt64) : UInt64 :=
  sofar * 31 + part

/-- The hash of a composite, from the hash of its head and those of its parts in order. -/
def sequenceHash (seed : UInt64) (parts : List UInt64) : UInt64 :=
  parts.foldl mixHash seed

@[simp]
theorem sequenceHash_nil (seed : UInt64) : sequenceHash seed [] = seed := rfl

@[simp]
theorem sequenceHash_cons (seed part : UInt64) (parts : List UInt64) :
    sequenceHash seed (part :: parts) = sequenceHash (mixHash seed part) parts := rfl

theorem sequenceHash_append (seed : UInt64) (parts parts' : List UInt64) :
    sequenceHash seed (parts ++ parts') = sequenceHash (sequenceHash seed parts) parts' :=
  List.foldl_append

end Ephemera

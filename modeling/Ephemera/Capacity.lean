import Ephemera.Fault

/-!
# Capacities

The number of chains of a table is a power of two from its first day on and only
ever doubles. `roundedCapacity` turns what a caller asks for into the number that a
new table starts with; `chainIndex` is the chain to which a hash belongs.

The request is first brought between `leastCapacity` and `maximalCapacity` and
rounded up only then: rounding first could leave the 64-bit range. What a table starts
with may still be more than can be allocated (`isOversized`). This comes to light when the
chains are made, and not before.
-/

namespace Ephemera

/-- The number of chains of a table for which the caller names none. -/
def leastCapacity : Nat := 16

/-- The largest number of chains that a table starts with: 2^62. -/
def maximalCapacity : Nat := 1 <<< 62

/-- The least power of two that is not below `n`. -/
def leastPowerOfTwo (n : Nat) : Nat :=
  if n ≤ 1 then 1 else 1 <<< ((n - 1).log2 + 1)

/-- Whether `n` is a power of two. -/
def isPowerOfTwo (n : Nat) : Bool :=
  leastPowerOfTwo n == n

/-- The number of chains of a new table for a caller who asks for `request`. -/
def roundedCapacity (request : Nat) : Nat :=
  leastPowerOfTwo (min (max request leastCapacity) maximalCapacity)

/-- Whether chains are too many to be allocated at once: each of them takes eight bytes, and
all of them have to take less than 2^63. -/
def isOversized (count : Nat) : Bool :=
  1 <<< 63 ≤ 8 * count

/-- The checks that are made before so many chains are made. -/
def checkedCount (count : Nat) : Except Fault Nat :=
  if !isPowerOfTwo count then .error .notPowerOfTwo
  else if isOversized count then .error .overflow
  else .ok count

/-- The chain of a hash among `count` chains: the bits of the hash under the mask
`count - 1`. For a power of two these are its low bits. -/
def chainIndex (count : Nat) (hash : UInt64) : Nat :=
  hash.toNat &&& (count - 1)

theorem chainIndex_lt {count : Nat} (hpos : 0 < count) (hash : UInt64) :
    chainIndex count hash < count :=
  Nat.lt_of_le_of_lt Nat.and_le_right (Nat.sub_lt hpos Nat.one_pos)

/-- The chains of several hashes, refused unless so many chains can be made. -/
def chainIndexes (count : Nat) (hashes : List UInt64) : Except Fault (List Nat) :=
  (checkedCount count).map fun count => hashes.map (chainIndex count)

end Ephemera

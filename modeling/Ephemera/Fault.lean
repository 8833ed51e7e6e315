/-!
# Faults

A fault ends an operation without an answer. Three of them are broken promises of
the tables themselves, checked where they would do harm. `overflow` is the failure to
allocate more chains than any memory has room for, `raised` is a computation that gave
up, and `unheld` a name for which the caller holds nothing.
-/

namespace Ephemera

/-- Why an operation ended without an answer. -/
inductive Fault where
  /-- two live links of one hash qualify for the same request -/
  | duplicate
  /-- a number of chains that is not a power of two -/
  | notPowerOfTwo
  /-- more chains than can be allocated at once -/
  | overflow
  /-- a slot was filled or emptied when the parity of its generation forbade it -/
  | generation (actual expected : Nat)
  /-- a computation gave up -/
  | raised (message : String)
  /-- the caller holds nothing under this name -/
  | unheld (name : String)
deriving Repr, DecidableEq

/-- The text of a fault. -/
def Fault.message : Fault → String
  | .duplicate => "two live entries for the same key"
  | .notPowerOfTwo => "assertion failed: len.is_power_of_two()"
  | .overflow => "capacity overflow"
  | .generation actual expected =>
    "assertion `left == right` failed\n  left: " ++ toString actual
      ++ "\n right: " ++ toString expected
  | .raised message => message
  | .unheld name => "nothing is held under the name " ++ name

end Ephemera

import Ephemera.Text.Quoted
import Ephemera.Text.Layout

/-!
# Refusals

A refusal is an answer: the request is understood and cannot be met. A memo refuses a
key that is gone and passes on a computation's own failure; descriptors refuse handles
that refer to nothing, and positions beyond their parameters. Each refusal has a text
for people, `message`, and a shape for those who look closer, `layout`.
-/

namespace Ephemera

open Text

/-- Why a memo gives no value. -/
inductive AccessRefusal where
  /-- the key is gone -/
  | gone
  /-- the computation failed, with its own text -/
  | failed (message : String)
deriving Repr, DecidableEq

/-- The text of a refusal. -/
def AccessRefusal.message : AccessRefusal → String
  | .gone => "the key handle does not refer to a live key"
  | .failed message => "value computation failed: " ++ message

/-- The shape of a refusal. -/
def AccessRefusal.layout : AccessRefusal → Layout
  | .gone => .atom "NullKey"
  | .failed message => .tuple "Computation" [.atom (quoted message)]

/-- Why there is no such descriptor. Numbers are 64-bit words for a caller, so all of
them are kept exactly. -/
inductive DescriptorRefusal where
  /-- a handle refers to nothing; the result has position 0, and the parameter at `i` has
  position `i + 1` -/
  | missing (index : Nat)
  /-- a position beyond the parameters -/
  | outOfBounds (index count : Nat)
  /-- a range that is reversed or ends beyond the parameters -/
  | badRange (start stop count : Nat)
deriving Repr, DecidableEq

/-- The text of a refusal. -/
def DescriptorRefusal.message : DescriptorRefusal → String
  | .missing index => "component " ++ toString index ++ " is missing"
  | .outOfBounds index count =>
    "parameter index " ++ toString index ++ " is out of bounds for " ++ toString count
      ++ " parameters"
  | .badRange start stop count =>
    "parameter range " ++ toString start ++ ".." ++ toString stop ++ " is invalid for "
      ++ toString count ++ " parameters"

/-- The shape of a refusal. -/
def DescriptorRefusal.layout : DescriptorRefusal → Layout
  | .missing index => .record "MissingComponent" [("index", .nat index)] false
  | .outOfBounds index count =>
    .record "IndexOutOfBounds" [("index", .nat index), ("len", .nat count)] false
  | .badRange start stop count =>
    .record "InvalidRange" [("start", .nat start), ("end", .nat stop), ("len", .nat count)] false

end Ephemera

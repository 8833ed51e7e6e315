import Ephemera.Key
import Ephemera.Pool
import Ephemera.Refusal
import Ephemera.Text.Field

/-!
# Descriptors

A descriptor says what goes into an operation and what comes out: a list of parameters and a
result, all of them components. Components are keys, so two descriptors are the same if they
have the same objects at the same places, whatever texts those hold. A descriptor is its own
request: a pool is asked for the descriptor with these components.

Descriptors are derived from others by editing the list of parameters. An edit at a position
that does not exist is refused before anything else happens.
-/

namespace Ephemera

open Text

/-- A result and parameters in order. -/
structure Descriptor where
  /-- what comes out -/
  result : Key
  /-- what goes in -/
  params : List Key
deriving Repr, DecidableEq

namespace Descriptor

/-- All components, the result first. -/
def components (d : Descriptor) : List Key :=
  d.result :: d.params

/-- The hash of a descriptor: the result seeds it, the parameters follow. -/
def hash (d : Descriptor) : UInt64 :=
  sequenceHash d.result.hash (d.params.map Key.hash)

/-- Whether two lists hold the same objects in the same order. -/
def sameAll : List Key → List Key → Bool
  | [], [] => true
  | k :: ks, k' :: ks' => k.same k' && sameAll ks ks'
  | _, _ => false

/-- Whether two descriptors have the same components. -/
def same (d d' : Descriptor) : Bool :=
  d.result.same d'.result && sameAll d.params d'.params

instance : Shareable Descriptor Descriptor where
  hash := hash
  answers := same
  make := id

/-! ## Edits -/

/-- With another result. -/
def withResult (result : Key) (d : Descriptor) : Descriptor :=
  { d with result }

/-- With another parameter at a position. -/
def withParam (index : Nat) (param : Key) (d : Descriptor) :
    Except DescriptorRefusal Descriptor :=
  if index < d.params.length then .ok { d with params := d.params.set index param }
  else .error (.outOfBounds index d.params.length)

/-- With more parameters before a position; the end is a position too. -/
def insertAt (index : Nat) (params : List Key) (d : Descriptor) :
    Except DescriptorRefusal Descriptor :=
  if index ≤ d.params.length then
    .ok { d with params := d.params.take index ++ params ++ d.params.drop index }
  else .error (.outOfBounds index d.params.length)

/-- With more parameters at the end. -/
def append (params : List Key) (d : Descriptor) : Descriptor :=
  { d with params := d.params ++ params }

/-- Without the parameters from `start` on and before `stop`. -/
def eraseRange (start stop : Nat) (d : Descriptor) : Except DescriptorRefusal Descriptor :=
  if start ≤ stop ∧ stop ≤ d.params.length then
    .ok { d with params := d.params.take start ++ d.params.drop stop }
  else .error (.badRange start stop d.params.length)

/-- The keys that handles refer to, or the first position of one that refers to nothing.
`index` is the position of the first handle. -/
def keysOfHandles (index : Nat) : List (Option Key) → Except DescriptorRefusal (List Key)
  | [] => .ok []
  | none :: _ => .error (.missing index)
  | some key :: rest => (keysOfHandles (index + 1) rest).map (key :: ·)

/-- The descriptor of the components that handles refer to. The result has position 0, and
the parameter at `i` has position `i + 1`. -/
def ofHandles (result : Option Key) (params : List (Option Key)) :
    Except DescriptorRefusal Descriptor :=
  match result with
  | none => .error (.missing 0)
  | some result => (keysOfHandles 1 params).map fun params => ⟨result, params⟩

/-! ## Texts -/

/-- The texts of the parameters in brackets, and then that of the result. Each component
is written in a field of its own. -/
def render (field : Field) (d : Descriptor) : String :=
  "(" ++ ",".intercalate (d.params.map fun p => field.write p.text) ++ ")"
    ++ field.write d.result.text

/-- A descriptor as a reader sees it. -/
def layout (d : Descriptor) : Layout :=
  .record "Signature"
    [("ret", .atom (quoted d.result.text)),
      ("params", .sequence (d.params.map fun p => .atom (quoted p.text)))]
    false

end Descriptor

end Ephemera

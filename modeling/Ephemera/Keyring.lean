import Ephemera.Key

/-!
# Keyrings

A caller makes keys, calls them by name, and lets go of them. A `Keyring` remembers every
key that was made and whether its maker still holds it. Keys are never forgotten: a key
that was let go can still be asked for, and taken up again as long as it is alive. Whether
it is alive is not for the ring to say, because containers may keep keys too.

Where no address is given, keys are laid out in the order in which they are made, one
every sixty-four bytes.
-/

namespace Ephemera

/-- A key and whether its maker holds it. -/
structure Holding where
  /-- the key -/
  key : Key
  /-- whether its maker holds it -/
  held : Bool
deriving Repr

/-- All keys that were made, in order. -/
structure Keyring where
  /-- the keys, each at the position that its number says -/
  holdings : Array Holding
deriving Repr

/-- What a caller may do with its keys. -/
inductive KeyAction where
  /-- make a key under a name -/
  | make (name text : String) (address : Option UInt64)
  /-- let go of a key -/
  | letGo (name : String)
  /-- ask whether a key is alive -/
  | alive (name : String)
  /-- take up a key again if it is alive -/
  | retake (name : String)
deriving Repr, DecidableEq

namespace Keyring

/-- No keys yet. -/
def empty : Keyring :=
  ⟨#[]⟩

/-- The address of the key that is made next, unless its maker gives one. -/
def nextAddress (r : Keyring) : UInt64 :=
  17592186044416 + 64 * UInt64.ofNat r.holdings.size

/-- The latest key of a name. -/
def key? (name : String) (r : Keyring) : Option Key :=
  (r.holdings.toList.reverse.find? fun h => h.key.name == name).map Holding.key

/-- Whether the maker of a key still holds it. -/
def holds (r : Keyring) (key : Key) : Bool :=
  r.holdings[key.number]?.any Holding.held

/-- The latest key of a name, if it is held. -/
def held? (name : String) (r : Keyring) : Option Key :=
  (r.key? name).filter r.holds

/-- The ring with a key held or not. -/
def mark (key : Key) (held : Bool) (r : Keyring) : Keyring :=
  ⟨r.holdings.modify key.number fun h => { h with held }⟩

/-- The ring without a hold on the latest key of a name. -/
def release (name : String) (r : Keyring) : Keyring :=
  match r.key? name with
  | none => r
  | some key => r.mark key false

/-- A new key, held by its maker, who lets go of an earlier key of that name. -/
def make (name text : String) (address : Option UInt64) (r : Keyring) : Keyring :=
  let key : Key := ⟨r.holdings.size, name, text, address.getD r.nextAddress⟩
  ⟨(r.release name).holdings.push ⟨key, true⟩⟩

/-- The ring after an action, and the answer if the action is a question. -/
def perform (live : Key → Bool) (r : Keyring) : KeyAction → Keyring × Option Bool
  | .make name text address => (r.make name text address, none)
  | .letGo name => (r.release name, some (r.held? name).isSome)
  | .alive name => (r, some ((r.key? name).any live))
  | .retake name =>
    match r.key? name with
    | none => (r, some false)
    | some key => (r.mark key (live key), some (live key))

end Keyring

end Ephemera

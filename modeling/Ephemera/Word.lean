import Ephemera.Pool

/-!
# Words

A word is asked for by a hash and a text. Words answer each other's requests if they differ
in the case of ASCII letters only, and a word keeps the spelling it was made for. The hash
is the caller's own choice, so words that would answer each other may be kept apart by it.
-/

namespace Ephemera

/-- A request for a word. -/
structure WordRequest where
  /-- the hash under which it is kept -/
  hash : UInt64
  /-- its text -/
  text : String
deriving Repr, DecidableEq

/-- A word, in the spelling it was made for. -/
structure Word where
  /-- its text -/
  text : String
deriving Repr, DecidableEq

/-- A text with its ASCII letters in lower case. -/
def foldCase (text : String) : String :=
  text.map Char.toLower

instance : Shareable WordRequest Word where
  hash := WordRequest.hash
  answers := fun word request => foldCase word.text == foldCase request.text
  make := fun request => ⟨request.text⟩

end Ephemera

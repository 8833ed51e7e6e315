/-!
# Fields

A field is a text cut to at most `precision` characters and then filled up to at
least `width` characters. Where the fill goes is decided by the alignment; in the
middle, an odd fill character goes to the right. Lengths count characters.
-/

namespace Ephemera.Text

/-- Where the text of a field stands. -/
inductive Alignment where
  | left
  | center
  | right
deriving Repr, DecidableEq

/-- How a text is cut and filled. -/
structure Field where
  /-- the least number of characters -/
  width : Nat := 0
  /-- the largest number of characters taken from the text, if it is cut -/
  precision : Option Nat := none
  /-- where the text stands in a field that is wider -/
  alignment : Alignment := .left
  /-- what the field is filled with -/
  fill : Char := ' '
deriving Repr, DecidableEq

namespace Field

/-- The field that leaves every text as it is. -/
def plain : Field := {}

/-- The characters of a text that are taken. -/
def cut (f : Field) (text : List Char) : List Char :=
  match f.precision with
  | none => text
  | some most => text.take most

/-- The numbers of fill characters before and after. -/
def margins (alignment : Alignment) (missing : Nat) : Nat × Nat :=
  match alignment with
  | .left => (0, missing)
  | .center => (missing / 2, missing - missing / 2)
  | .right => (missing, 0)

/-- A text as it stands in the field. -/
def write (f : Field) (text : String) : String :=
  let taken := f.cut text.toList
  let (before, after) := margins f.alignment (f.width - taken.length)
  String.ofList (List.replicate before f.fill ++ taken ++ List.replicate after f.fill)

end Field

/-- The plain field changes nothing. -/
@[simp]
theorem Field.write_plain (text : String) : Field.plain.write text = text := by
  simp [Field.write, Field.plain, Field.cut, Field.margins]

end Ephemera.Text

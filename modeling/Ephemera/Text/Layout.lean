/-!
# Layouts of structured values

The shape of a value as a reader sees it: named records, named tuples, sequences, and
atoms that are already text. A layout is written in one of two ways: `Layout.inline`
puts all of it on one line; `Layout.expanded` gives every part a line of its own,
indented by four blanks and ended by a comma. A record may be left open: two dots at
its end say that it has parts which are not shown.
-/

namespace Ephemera.Text

/-- The shape of a value to be written. -/
inductive Layout where
  /-- a text that is written as it stands -/
  | atom (text : String)
  /-- a name and parts that have names; `more` if some are not shown -/
  | record (name : String) (fields : List (String × Layout)) (more : Bool)
  /-- a name and parts without names -/
  | tuple (name : String) (items : List Layout)
  /-- parts alone -/
  | sequence (items : List Layout)

namespace Layout

/-- Two dots stand for the parts of an open record that are not shown. -/
def openMark (more : Bool) : List String :=
  if more then [".."] else []

mutual

/-- All on one line. -/
def inline : Layout → String
  | atom text => text
  | record name fields more =>
    name ++ " \x7b " ++ ", ".intercalate (inlineFields fields ++ openMark more) ++ " \x7d"
  | tuple name items => name ++ "(" ++ ", ".intercalate (inlineItems items) ++ ")"
  | sequence items => "[" ++ ", ".intercalate (inlineItems items) ++ "]"

/-- The parts of a record, each on one line. -/
def inlineFields : List (String × Layout) → List String
  | [] => []
  | (name, value) :: rest => (name ++ ": " ++ value.inline) :: inlineFields rest

/-- The parts of a tuple or sequence, each on one line. -/
def inlineItems : List Layout → List String
  | [] => []
  | value :: rest => value.inline :: inlineItems rest

end

/-- The indentation of a part at a depth. -/
def indent (depth : Nat) : String :=
  String.ofList (List.replicate (4 * depth) ' ')

/-- Parts on lines of their own at a depth, between an opening and a closing text that
belong to the depth above. -/
def block (depth : Nat) (opening closing : String) (lines : List String) : String :=
  opening ++ "\n" ++ String.join (lines.map fun line => indent (depth + 1) ++ line ++ "\n")
    ++ indent depth ++ closing

mutual

/-- Every part on a line of its own. The first line is not indented: it continues the
line of whatever the value belongs to. -/
def expandedAt (depth : Nat) : Layout → String
  | atom text => text
  | record name fields more =>
    block depth (name ++ " \x7b") "\x7d" (expandedFields (depth + 1) fields ++ openMark more)
  | tuple name items => block depth (name ++ "(") ")" (expandedItems (depth + 1) items)
  | sequence [] => "[]"
  | sequence (first :: rest) =>
    block depth "[" "]"
      ((first.expandedAt (depth + 1) ++ ",") :: expandedItems (depth + 1) rest)

/-- The parts of a record, each ended by a comma. -/
def expandedFields (depth : Nat) : List (String × Layout) → List String
  | [] => []
  | (name, value) :: rest =>
    (name ++ ": " ++ value.expandedAt depth ++ ",") :: expandedFields depth rest

/-- The parts of a tuple or sequence, each ended by a comma. -/
def expandedItems (depth : Nat) : List Layout → List String
  | [] => []
  | value :: rest => (value.expandedAt depth ++ ",") :: expandedItems depth rest

end

/-- Every part on a line of its own. -/
def expanded (layout : Layout) : String :=
  layout.expandedAt 0

/-- Either way of writing, by a flag. -/
def write (isExpanded : Bool) (layout : Layout) : String :=
  if isExpanded then layout.expanded else layout.inline

/-- The layout of a number. -/
def nat (n : Nat) : Layout :=
  atom (toString n)

end Layout

end Ephemera.Text

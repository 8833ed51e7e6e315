import Ephemera.Text.Visible

/-!
# Quoted texts

A text between double quotes. The quote and the backslash are written with a
backslash before them; a tab, a line feed, a carriage return and the character zero
have letters of their own; every other character that is not `isVisible` is written
by its code point in hexadecimal digits between braces.
-/

namespace Ephemera.Text

/-- How one character is written between quotes. -/
def quotedChar (c : Char) : String :=
  if c = '"' then "\\\""
  else if c = '\\' then "\\\\"
  else if c = '\t' then "\\t"
  else if c = '\n' then "\\n"
  else if c = '\r' then "\\r"
  else if c = '\x00' then "\\0"
  else if isVisible c then String.singleton c
  else "\\u\x7b" ++ String.ofList (Nat.toDigits 16 c.toNat) ++ "\x7d"

/-- A text between quotes. -/
def quoted (s : String) : String :=
  "\"" ++ String.join (s.toList.map quotedChar) ++ "\""

end Ephemera.Text

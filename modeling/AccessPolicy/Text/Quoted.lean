import AccessPolicy.Text.Hex
import AccessPolicy.Text.Printable

/-!
# Quoted text

A text is shown between apostrophes, or between quotation marks when it holds an apostrophe and
no quotation mark. The mark in use, the backslash, line feed, carriage return and tabulator are
escaped by name, and every other unprintable character by its code point.
-/

namespace AccessPolicy.Text.Quoted

/-- The apostrophe, which is the usual mark. -/
def apostrophe : Char := '\x27'

/-- The mark that is put around a text. -/
def mark (cs : List Char) : Char :=
  if apostrophe ∈ cs ∧ '"' ∉ cs then '"' else apostrophe

/-- A character by its code point, in two, four or eight digits as its size needs. -/
def codePoint (c : Char) : List Char :=
  if c.toNat < 0x100 then '\\' :: 'x' :: Hex.fixed 2 c.toNat
  else if c.toNat < 0x10000 then '\\' :: 'u' :: Hex.fixed 4 c.toNat
  else '\\' :: 'U' :: Hex.fixed 8 c.toNat

/-- A character as it is written between the given marks. -/
def escape (mark c : Char) : List Char :=
  if c = mark ∨ c = '\\' then ['\\', c]
  else if c = '\n' then ['\\', 'n']
  else if c = '\r' then ['\\', 'r']
  else if c = '\t' then ['\\', 't']
  else if Printable.isPrintable c then [c]
  else codePoint c

/-- The quoted form of a list of characters. -/
def encode (cs : List Char) : List Char :=
  mark cs :: cs.flatMap (escape (mark cs)) ++ [mark cs]

end AccessPolicy.Text.Quoted

namespace AccessPolicy.Text

/-- The quoted form of a text. -/
def quoted (s : String) : String := String.ofList (Quoted.encode s.toList)

end AccessPolicy.Text

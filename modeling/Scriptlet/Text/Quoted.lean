import Scriptlet.Text.Printable

/-!
# Quoted text

How messages show a piece of text so that every character of it can be seen.  The quotation mark
is the apostrophe, unless the text has an apostrophe and no double quote.  Inside, the mark and
the backslash are written after a backslash, line feed, carriage return and tab by their letters,
and any other unprintable character by its code point in hexadecimal with as many digits as its
size needs.
-/

set_option autoImplicit false
namespace Scriptlet.Text

/-- A number in lower-case hexadecimal, padded with zeros to a width. -/
def hexPadded (width n : Nat) : List Char :=
  let ds := Nat.toDigits 16 n
  List.replicate (width - ds.length) '0' ++ ds

/-- The mark that encloses a text. -/
def quotationMark (cs : List Char) : Char :=
  if cs.contains '\'' && !cs.contains '"' then '"' else '\''

/-- A character as it stands between two marks. -/
def quotedChar (mark c : Char) : List Char :=
  if c = mark || c = '\\' then ['\\', c]
  else if c = '\n' then ['\\', 'n']
  else if c = '\r' then ['\\', 'r']
  else if c = '\t' then ['\\', 't']
  else if isPrintable c then [c]
  else if c.toNat < 0x100 then '\\' :: 'x' :: hexPadded 2 c.toNat
  else if c.toNat < 0x10000 then '\\' :: 'u' :: hexPadded 4 c.toNat
  else '\\' :: 'U' :: hexPadded 8 c.toNat

/-- A text between quotation marks. -/
def quoted (s : String) : String :=
  let mark := quotationMark s.toList
  String.ofList (mark :: s.toList.flatMap (quotedChar mark) ++ [mark])

/-- An optional text between quotation marks; a missing one is `None`. -/
def quotedOption : Option String → String
  | some s => quoted s
  | none => "None"

end Scriptlet.Text

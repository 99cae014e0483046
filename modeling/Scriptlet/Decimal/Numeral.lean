import Scriptlet.Decimal.Nearest
import Scriptlet.Text.Blank
import Scriptlet.Text.Digit

/-!
# Reading numerals

A numeral may stand between blanks, its digits may come from any script, and a single underscore may
separate two digits.  These freedoms are taken away first; what is left is plain ASCII with a simple
grammar:

* a number is a sign, then `inf`, `infinity` or `nan` in any case, or digits with an optional point
  and an optional exponent, at least one digit standing beside the point;
* an integer is a sign, then digits, of which there may be at most `integerDigitLimit`.

A number is read to the nearest double.
-/

set_option autoImplicit false
namespace Scriptlet.Decimal

open Scriptlet.Text

/-- The most digits that an integer may have, leading zeros counted. -/
def integerDigitLimit : Nat := 4300

/-- Takes out the underscores between digits; any other underscore is refused.  The flag tells
whether the character before was a digit. -/
def joinDigits : Bool → List Char → Option (List Char)
  | _, [] => some []
  | afterDigit, '_' :: cs =>
    match cs with
    | c :: _ => if afterDigit && c.isDigit then joinDigits false cs else none
    | [] => none
  | _, c :: cs => (joinDigits c.isDigit cs).map (c :: ·)

/-- A numeral in plain ASCII: padding trimmed, digits of all scripts made ASCII, underscores between
digits taken out. -/
def plain? (s : String) : Option (List Char) :=
  joinDigits false ((trim isPadding s.toList).map asciiDigit)

/-- A sign, if one is there, and the rest. -/
def takeSign : List Char → Bool × List Char
  | '-' :: cs => (true, cs)
  | '+' :: cs => (false, cs)
  | cs => (false, cs)

/-- The names of numbers that have no digits. -/
def named? (cs : List Char) : Option Nat :=
  let name := cs.map Char.toLower
  if name = "inf".toList || name = "infinity".toList then some infinityPattern
  else if name = "nan".toList then some (infinityPattern + binade / 2)
  else none

/-- An exponent: nothing, or `e`, a sign and digits up to the end. -/
def exponent? : List Char → Option Int
  | [] => some 0
  | c :: cs =>
    if c = 'e' || c = 'E' then
      let (negative, ds) := takeSign cs
      if ds.isEmpty || !ds.all Char.isDigit then none
      else some (if negative then -(digitsValue ds : Int) else digitsValue ds)
    else none

/-- The pattern of digits with an optional point and exponent. -/
def unsigned? (cs : List Char) : Option Nat :=
  let whole := cs.takeWhile Char.isDigit
  let rest := cs.dropWhile Char.isDigit
  let (fraction, tail) := match rest with
    | '.' :: rest => (rest.takeWhile Char.isDigit, rest.dropWhile Char.isDigit)
    | rest => ([], rest)
  if whole.isEmpty && fraction.isEmpty then none
  else
    (exponent? tail).map fun e =>
      nearestDecimal (digitsValue (whole ++ fraction)) (e - fraction.length)

/-- The double that a text writes. -/
def readNumber? (s : String) : Option Float := do
  let cs ← plain? s
  let (negative, body) := takeSign cs
  let p ← (named? body).or (unsigned? body)
  return if infinityPattern < p then notANumber else ofPattern negative p

/-- The integer that a text writes. -/
def readInteger? (s : String) : Option Int := do
  let cs ← plain? s
  let (negative, ds) := takeSign cs
  if ds.isEmpty || !ds.all Char.isDigit || integerDigitLimit < ds.length then none
  else some (if negative then -(digitsValue ds : Int) else digitsValue ds)

/-- The double of a number token: digits, and a point with digits if there is one. -/
def ofPositional (cs : List Char) : Float :=
  ofPattern false ((unsigned? cs).getD 0)

end Scriptlet.Decimal

import Scriptlet.Decimal.Shortest

/-!
# Writing numbers

A finite number is written with its shortest digits.  When the exponent of the leading digit is
between the two bounds of the format the point stands in place, and a whole number keeps one zero
after it; else one digit stands before the point and the exponent follows with a sign and at least
two digits.

* `NumberFormat`, `numberFormat` — the decisions of the format.
* `write` — the full text, as constants of code have it.
* `writeBrief` — the text that programs print: a whole number without its fraction.
-/

set_option autoImplicit false
namespace Scriptlet.Decimal

/-- The decisions of a number format: exponents from `positionalFrom` to below `positionalBelow` are
written in place, and an exponent has at least `exponentDigits` digits. -/
structure NumberFormat where
  positionalFrom : Int
  positionalBelow : Int
  exponentDigits : Nat
  deriving Repr

/-- Numbers from `10 ^ -4` to below `10 ^ 16` have their point in place. -/
def numberFormat : NumberFormat := ⟨-4, 16, 2⟩

/-- Digits with the point in place, for the exponent `e` of the leading digit. -/
def positional (ds : List Char) (e : Int) : List Char :=
  if e < 0 then '0' :: '.' :: (List.replicate (-e - 1).toNat '0' ++ ds)
  else
    let whole := (e + 1).toNat
    let fraction := ds.drop whole
    ds.take whole ++ List.replicate (whole - ds.length) '0' ++
      '.' :: (if fraction.isEmpty then ['0'] else fraction)

/-- Digits with one digit before the point and the exponent after them. -/
def scientific (f : NumberFormat) (ds : List Char) (e : Int) : List Char :=
  let exponent := Nat.toDigits 10 e.natAbs
  let point := if ds.length ≤ 1 then [] else ['.']
  ds.take 1 ++ point ++ ds.drop 1 ++
    'e' :: (if e < 0 then '-' else '+') ::
      (List.replicate (f.exponentDigits - exponent.length) '0' ++ exponent)

/-- The text of the decimal `c · 10 ^ k`. -/
def writeDecimal (f : NumberFormat) : Nat × Int → List Char
  | (c, k) =>
    let ds := Nat.toDigits 10 c
    let e := k + ds.length - 1
    if f.positionalFrom ≤ e && e < f.positionalBelow then positional ds e else scientific f ds e

/-- The text of a positive pattern. -/
def writePattern (f : NumberFormat) (p : Nat) : List Char :=
  writeDecimal f (shortest p)

/-- The text of a number without its sign. -/
def writeMagnitude (p : Nat) : List Char :=
  if p = 0 then ['0', '.', '0'] else writePattern numberFormat p

/-- The sign of a text. -/
def signed (negative : Bool) (cs : List Char) : List Char :=
  if negative then '-' :: cs else cs

/-- The full text of a number, as characters. -/
def writeChars (x : Float) : List Char :=
  match view x with
  | .nan => ['n', 'a', 'n']
  | .infinite negative => signed negative ['i', 'n', 'f']
  | .finite negative p => signed negative (writeMagnitude p)

/-- The full text of a number. -/
def write (x : Float) : String :=
  String.ofList (writeChars x)

/-- A text without a final `.0`. -/
def dropZeroFraction (cs : List Char) : List Char :=
  if ['.', '0'].isSuffixOf cs then cs.take (cs.length - 2) else cs

/-- The text of a number as programs print it. -/
def writeBrief (x : Float) : String :=
  String.ofList (dropZeroFraction (writeChars x))

end Scriptlet.Decimal

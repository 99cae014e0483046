/-!
# Doubles as natural numbers

Set the sign aside and read the other 63 bits of a double as a number `p`, its *pattern*.  Patterns
count the non-negative doubles in order: `0` is zero, each next pattern is the next double, and
`infinityPattern` is the first that is no longer finite.  A finite pattern stands for a whole number
of *units* of `2 ^ -1074`, the least positive double, so every question about finite doubles is one
about natural numbers.

* `scale`, `significand`, `units` — what a finite pattern stands for.
* `View`, `view` — a double as sign and pattern, the infinities, or not a number.
* `ofPattern` — the double of a sign and a pattern.
* `truncated?` — the integer part of a finite double, exact at any size.
-/

set_option autoImplicit false
namespace Scriptlet.Decimal

/-- Patterns per binade: the fraction has 52 bits. -/
def binade : Nat := Nat.pow 2 52

/-- One is this many units. -/
def unitsPerOne : Nat := Nat.pow 2 1074

/-- The pattern of infinity, the first that is not finite. -/
def infinityPattern : Nat := 2047 * binade

/-- The power of two that multiplies the significand of a pattern.  The two lowest binades share
the scale zero. -/
def scale (p : Nat) : Nat := p / binade - 1

/-- The significand of a pattern, with the leading bit that the pattern leaves out. -/
def significand (p : Nat) : Nat := p - scale p * binade

/-- The units that a pattern stands for. -/
def units (p : Nat) : Nat := significand p * Nat.pow 2 (scale p)

/-- What a double is. -/
inductive View where
  | nan
  | infinite (negative : Bool)
  | finite (negative : Bool) (pattern : Nat)
  deriving DecidableEq, Repr

/-- A double taken apart. -/
def view (x : Float) : View :=
  let bits := x.toBits.toNat
  let negative := decide (Nat.pow 2 63 ≤ bits)
  let p := bits % Nat.pow 2 63
  if p < infinityPattern then .finite negative p
  else if p = infinityPattern then .infinite negative
  else .nan

/-- The double of a sign and a pattern. -/
def ofPattern (negative : Bool) (p : Nat) : Float :=
  Float.ofBits (UInt64.ofNat (if negative then Nat.pow 2 63 + p else p))

/-- Not a number. -/
def notANumber : Float :=
  ofPattern false (infinityPattern + binade / 2)

/-- A finite double without its fraction, rounded toward zero; nothing for the others. -/
def truncated? (x : Float) : Option Int :=
  match view x with
  | .finite negative p =>
    let n : Int := units p / unitsPerOne
    some (if negative then -n else n)
  | _ => none

end Scriptlet.Decimal

import Scriptlet.Decimal.Binary64

/-!
# The double nearest to a fraction

Rounding is to nearest, a tie going to the even pattern.  A fraction of natural numbers is turned
into units; the scale is chosen so that the quotient has 53 bits, or is zero for the small ones; one
rounded division then gives the significand.  When it rounds up to the next power of two the same
sum `scale * binade + significand` already is the pattern of the next binade, so no case is set
apart.

* `roundedDiv` — division to nearest, ties to even.
* `nearestPattern` — the pattern nearest to a fraction, at most that of infinity.
* `nearestDecimal` — the pattern nearest to `m * 10 ^ e`.
-/

set_option autoImplicit false
namespace Scriptlet.Decimal

/-- The quotient rounded to nearest, ties to even. -/
def roundedDiv (n d : Nat) : Nat :=
  let q := n / d
  let r := n % d
  if d < 2 * r || (2 * r = d && q % 2 = 1) then q + 1 else q

/-- The scale at which `n / d` units have a significand of 53 bits, or zero. -/
def scaleFor (n d : Nat) : Nat :=
  (n / d).log2 - 52

/-- The pattern nearest to the fraction `n / d`. -/
def nearestPattern (n d : Nat) : Nat :=
  let u := n * unitsPerOne
  let s := scaleFor u d
  min (s * binade + roundedDiv u (d * Nat.pow 2 s)) infinityPattern

/-- The pattern nearest to `m * 10 ^ e`.  Past `10 ^ 400` all is infinite and below `10 ^ -400` all
is zero, so powers of ten stay within reach of the digits given. -/
def nearestDecimal (m : Nat) (e : Int) : Nat :=
  if m = 0 then 0
  else if 400 < e then infinityPattern
  else if e < -(401 + (m.log2 : Int)) then 0
  else if 0 ≤ e then nearestPattern (m * Nat.pow 10 e.toNat) 1
  else nearestPattern m (Nat.pow 10 (-e).toNat)

/-- A quotient that comes out even is not rounded. -/
theorem roundedDiv_mul {d : Nat} (hd : 0 < d) (q : Nat) : roundedDiv (q * d) d = q := by
  have hq : q * d / d = q := Nat.mul_div_cancel q hd
  have hr : q * d % d = 0 := Nat.mul_mod_left q d
  unfold roundedDiv
  rw [hq, hr, if_neg]
  simp only [Bool.or_eq_true, Bool.and_eq_true, decide_eq_true_eq]
  omega

end Scriptlet.Decimal

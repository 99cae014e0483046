import Mathlib
import Scriptlet.Decimal.Binary64

/-!
# Doubles as numbers

What programs see of the number that a double stands for: whether it equals another one, and its
integer part.

Two doubles are equal if they are the same number.  The two zeros are, and what is not a number
equals nothing, itself included.  So equality of doubles is equality of what is left when the sign
of a zero is forgotten, on the doubles that are numbers.

* `beq_iff` — equality of doubles as an equality; from it, equality is symmetric (`beq_comm`),
  transitive (`beq_trans`), and reflexive on numbers (`beq_self_iff`).
* `rational?` — the rational number that a finite double stands for.
* `truncated?_eq` — the integer part of a double is its number cut off toward zero.
-/

set_option autoImplicit false
namespace Scriptlet.Decimal

open Float.Model

/-! ## Equality -/

/-- A double taken apart, without the sign of a zero. -/
def unsignedZero : UnpackedFloat → UnpackedFloat
  | .zero _ => .zero .positive
  | x => x

theorem compare_eq_iff (a b : UnpackedFloat) :
    a.compare b = some .eq ↔ a.isNaN = false ∧ unsignedZero a = unsignedZero b := by
  -- two infinities and two finite numbers of one sign are compared further, all else is decided
  rcases a with ⟨⟨⟩⟩ | _ | s | ⟨⟨⟩, m, e, hm⟩ <;> rcases b with ⟨⟨⟩⟩ | _ | t | ⟨⟨⟩, n, f, hn⟩ <;>
    simp [UnpackedFloat.compare, unsignedZero, UnpackedFloat.isNaN, Ordering.then_eq_eq, and_comm]
  all_goals rfl

theorem beq_iff {x y : Float} : (x == y) = true ↔
    x.isNaN = false ∧ unsignedZero x.toModel.unpack = unsignedZero y.toModel.unpack := by
  show (x.toModel.unpack.compare y.toModel.unpack == some .eq) = true ↔ _
  rw [beq_iff_eq, compare_eq_iff]
  rfl

theorem isNaN_eq_of_unsignedZero {x y : Float}
    (h : unsignedZero x.toModel.unpack = unsignedZero y.toModel.unpack) : x.isNaN = y.isNaN := by
  have hsame (a : UnpackedFloat) : (unsignedZero a).isNaN = a.isNaN := by cases a <;> rfl
  show x.toModel.unpack.isNaN = y.toModel.unpack.isNaN
  rw [← hsame, h, hsame]

theorem beq_comm (x y : Float) : (x == y) = (y == x) := by
  rw [Bool.eq_iff_iff, beq_iff, beq_iff]
  constructor
  · rintro ⟨hx, h⟩
    exact ⟨isNaN_eq_of_unsignedZero h ▸ hx, h.symm⟩
  · rintro ⟨hy, h⟩
    exact ⟨isNaN_eq_of_unsignedZero h ▸ hy, h.symm⟩

theorem beq_trans {x y z : Float} (hxy : (x == y) = true) (hyz : (y == z) = true) :
    (x == z) = true := by
  rw [beq_iff] at *
  exact ⟨hxy.1, hxy.2.trans hyz.2⟩

theorem beq_self_iff {x : Float} : (x == x) = true ↔ x.isNaN = false := by
  rw [beq_iff, and_iff_left rfl]

/-! ## Integer parts -/

/-- The rational number that a finite double stands for. -/
def rational? (x : Float) : Option ℚ :=
  match view x with
  | .finite negative p =>
    let q : ℚ := units p / unitsPerOne
    some (if negative then -q else q)
  | _ => none

/-- The integer next to a rational number in the direction of zero. -/
def towardZero (q : ℚ) : ℤ :=
  if 0 ≤ q then ⌊q⌋ else ⌈q⌉

theorem towardZero_neg (q : ℚ) : towardZero (-q) = -towardZero q := by
  rcases lt_trichotomy q 0 with hq | rfl | hq
  · rw [towardZero, if_pos (by linarith), towardZero, if_neg (by linarith), Int.floor_neg]
  · simp [towardZero]
  · rw [towardZero, if_neg (by linarith), towardZero, if_pos (by linarith), Int.ceil_neg]

theorem towardZero_div (n d : Nat) : towardZero (n / d) = n / d := by
  rw [towardZero, if_pos (by positivity)]
  exact Rat.floor_intCast_div_natCast n d

/-- **The integer part of a double is its number cut off toward zero.** -/
theorem truncated?_eq (x : Float) : truncated? x = (rational? x).map towardZero := by
  rw [truncated?, rational?]
  cases view x with
  | nan => rfl
  | infinite negative => rfl
  | finite negative p =>
    -- the number of units in one is too large to be computed with
    generalize unitsPerOne = d
    cases negative <;> simp [towardZero_neg, towardZero_div]

end Scriptlet.Decimal

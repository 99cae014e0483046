import Scriptlet.Decimal.Nearest

/-!
# The fewest digits that read back

Between a double and its two neighbours lie two midpoints; every number strictly between them reads
as that double, and so do the midpoints themselves when the pattern is even.  Among the numbers of
this interval the one with the fewest digits lies on the coarsest grid of multiples of a power of
ten that meets the interval.  So the search goes from coarse grids to fine ones and stops at the
first that has a point inside.  If both neighbours of the double on that grid are inside, the nearer
one is taken, of two equally near the even one.

* `readsBack p c k` — `c * 10 ^ k` lies in the interval of the pattern `p`.
* `shortest p` — the digits and the exponent found for the pattern `p`.
-/

set_option autoImplicit false
namespace Scriptlet.Decimal

/-- The numerator of `10 ^ k`. -/
def gridNum (k : Int) : Nat := Nat.pow 10 k.toNat

/-- The denominator of `10 ^ k`. -/
def gridDen (k : Int) : Nat := Nat.pow 10 (-k).toNat

/-- Whether `c * 10 ^ k` reads as the double of a positive pattern: it lies between the midpoints,
which count when the pattern is even. -/
def readsBack (p c : Nat) (k : Int) : Bool :=
  let x := 2 * c * gridNum k * unitsPerOne
  let low := (units (p - 1) + units p) * gridDen k
  let high := (units p + units (p + 1)) * gridDen k
  if p % 2 = 0 then low ≤ x && x ≤ high else low < x && x < high

/-- The multiple of `10 ^ k` that reads back, if there is one: the nearer neighbour, else the
other. -/
def onGrid? (p : Nat) (k : Int) : Option Nat :=
  let n := units p * gridDen k
  let d := unitsPerOne * gridNum k
  let near := roundedDiv n d
  let floor := n / d
  let far := if near = floor then floor + 1 else floor
  [near, far].find? (readsBack p · k)

/-- The first grid at or below an exponent that has a point reading back. -/
def search (p : Nat) : Nat → Int → Nat × Int
  | 0, k => (0, k)
  | fuel + 1, k =>
    match onGrid? p k with
    | some c => (c, k)
    | none => search p fuel (k - 1)

/-- An exponent above that of the leading digit of a pattern: its binary logarithm times the
logarithm of two, rounded up. -/
def leadingBound (p : Nat) : Int :=
  ((units p).log2 - 1073 : Int) * 30103 / 100000 + 1

/-- The shortest decimal of a positive pattern, as digits and exponent.  At the exponent `-1075`
every double is on the grid, so the search ends. -/
def shortest (p : Nat) : Nat × Int :=
  let k := leadingBound p
  search p (k + 1076).toNat k

/-- A point found on a grid reads back. -/
theorem readsBack_of_onGrid? {p c : Nat} {k : Int} (h : onGrid? p k = some c) :
    readsBack p c k = true := by
  unfold onGrid? at h
  exact List.find?_some (p := (readsBack p · k)) h

end Scriptlet.Decimal

import Mathlib
import Scriptlet.Decimal.Shortest

/-!
# What reads as a pattern

A fraction reads as the pattern `p` when it lies between the midpoints of `p` and its neighbours,
the midpoints counted when `p` is even.  This file shows that `nearestPattern` and `nearestDecimal`
find that pattern.

* `units_succ` — how far apart two neighbours are.
* `Rounds p n d` — the fraction `n / d` reads as `p`.
* `nearestPattern_eq`, `nearestDecimal_eq` — such a fraction is read as `p`.

The one case that is not plain rounding is a fraction below the first pattern of a binade: it lies
in the binade before, where neighbours are half as far apart, and is rounded up out of it.
-/

set_option autoImplicit false
namespace Scriptlet.Decimal

/-! ## Powers

The definitions name the power function of the natural numbers; here it is written `^`. -/

theorem units_def (p : Nat) : units p = significand p * 2 ^ scale p := rfl

theorem gridNum_def (k : Int) : gridNum k = 10 ^ k.toNat := rfl

theorem gridDen_def (k : Int) : gridDen k = 10 ^ (-k).toNat := rfl

/-! ## Scale and significand -/

theorem scale_mul_binade_add_significand (p : Nat) : scale p * binade + significand p = p := by
  have hb : 0 < binade := by decide
  have h : scale p * binade ≤ p := by
    calc scale p * binade ≤ p / binade * binade := Nat.mul_le_mul_right _ (Nat.sub_le _ _)
      _ ≤ p := Nat.div_mul_le_self p binade
  unfold significand
  omega

theorem significand_lt (p : Nat) : significand p < 2 * binade := by
  have hb : 0 < binade := by decide
  have h := Nat.lt_div_mul_add (a := p) hb
  have hs : p / binade ≤ scale p + 1 := by unfold scale; omega
  have := Nat.mul_le_mul_right binade hs
  rw [Nat.succ_mul] at this
  unfold significand
  omega

theorem le_significand {p : Nat} (h : scale p ≠ 0) : binade ≤ significand p := by
  have hs : p / binade = scale p + 1 := by unfold scale at h ⊢; omega
  have := Nat.div_mul_le_self p binade
  rw [hs, Nat.succ_mul] at this
  unfold significand
  omega

/-- A pattern has one scale and one significand. -/
theorem scale_eq {p s m : Nat} (hp : s * binade + m = p) (hm : m < 2 * binade)
    (hs : s ≠ 0 → binade ≤ m) : scale p = s := by
  have hb : 0 < binade := by decide
  subst hp
  unfold scale
  rcases Nat.lt_or_ge m binade with h | h
  · obtain rfl : s = 0 := by
      by_contra h0
      have := hs h0
      omega
    rw [Nat.zero_mul, Nat.zero_add, Nat.div_eq_of_lt h]
  · have : (s * binade + m) / binade = s + 1 :=
      Nat.div_eq_of_lt_le (by rw [Nat.succ_mul]; omega) (by rw [Nat.succ_mul, Nat.succ_mul]; omega)
    omega

theorem units_eq {p s m : Nat} (hp : s * binade + m = p) (hm : m < 2 * binade)
    (hs : s ≠ 0 → binade ≤ m) : units p = m * 2 ^ s := by
  have h := scale_eq hp hm hs
  have : significand p = m := by
    have := scale_mul_binade_add_significand p
    rw [h] at this
    omega
  rw [units_def, h, this]

/-- Two neighbours are as far apart as the scale of the lower one says. -/
theorem units_succ (p : Nat) : units (p + 1) = units p + 2 ^ scale p := by
  have hp := scale_mul_binade_add_significand p
  have hm := significand_lt p
  rcases Nat.lt_or_ge (significand p + 1) (2 * binade) with h | h
  · have := units_eq (p := p + 1) (s := scale p) (m := significand p + 1) (by omega) h
      fun h0 => by have := le_significand h0; omega
    rw [this, units_def, Nat.succ_mul]
  · have hm' : significand p + 1 = 2 * binade := by omega
    have := units_eq (p := p + 1) (s := scale p + 1) (m := binade)
      (by rw [Nat.succ_mul]; omega) (by decide) fun _ => Nat.le_refl _
    rw [this, units_def, ← Nat.succ_mul, Nat.succ_eq_add_one, hm', Nat.pow_succ]
    ring

theorem scale_pred_le (p : Nat) : scale (p - 1) ≤ scale p := by
  have := Nat.div_le_div_right (c := binade) (Nat.sub_le p 1)
  unfold scale
  omega

/-! ## Rounded division -/

/-- A quotient within a half of `m` is rounded to `m`; a half counts when `m` is even. -/
theorem roundedDiv_eq {u d m : Nat} (hd : 0 < d) (hlow : 2 * (m * d) ≤ 2 * u + d)
    (hhigh : 2 * u ≤ 2 * (m * d) + d)
    (hodd : m % 2 = 1 → 2 * (m * d) < 2 * u + d ∧ 2 * u < 2 * (m * d) + d) :
    roundedDiv u d = m := by
  have hu := Nat.div_add_mod u d
  have hr := Nat.mod_lt u hd
  rw [Nat.mul_comm] at hu
  have hle : u / d ≤ m := by
    by_contra h
    have := Nat.mul_le_mul_right d (show m + 1 ≤ u / d by omega)
    rw [Nat.succ_mul] at this
    omega
  have hge : m ≤ u / d + 1 := by
    by_contra h
    have := Nat.mul_le_mul_right d (show u / d + 1 + 1 ≤ m by omega)
    rw [Nat.succ_mul, Nat.succ_mul] at this
    omega
  unfold roundedDiv
  dsimp only
  rcases Nat.eq_or_lt_of_le hle with h | h
  · subst h
    rw [if_neg]
    simp only [Bool.or_eq_true, Bool.and_eq_true, decide_eq_true_eq]
    omega
  · obtain rfl : m = u / d + 1 := by omega
    have hm : (u / d + 1) * d = u / d * d + d := Nat.succ_mul _ _
    rw [hm] at hlow hodd
    rw [if_pos]
    simp only [Bool.or_eq_true, Bool.and_eq_true, decide_eq_true_eq]
    omega

/-! ## The scale of a fraction -/

/-- What makes `s` the scale of the fraction `u / d`. -/
def ScaleOf (u d s : Nat) : Prop :=
  u < d * 2 ^ (s + 53) ∧ (s ≠ 0 → d * 2 ^ (s + 52) ≤ u)

theorem scaleFor_eq {u d s : Nat} (hd : 0 < d) (h : ScaleOf u d s) : scaleFor u d = s := by
  unfold scaleFor
  have hlt : u / d < 2 ^ (s + 53) := Nat.div_lt_of_lt_mul h.1
  rcases Nat.eq_zero_or_pos s with rfl | hs
  · rcases Nat.eq_zero_or_pos (u / d) with h0 | h0
    · rw [h0]
      decide
    · have := (Nat.log2_lt (Nat.ne_of_gt h0)).2 hlt
      omega
  · have hle : 2 ^ (s + 52) ≤ u / d := by
      rw [Nat.le_div_iff_mul_le hd, Nat.mul_comm]
      exact h.2 (Nat.ne_of_gt hs)
    have h0 : u / d ≠ 0 := by
      have := Nat.two_pow_pos (s + 52)
      omega
    have h1 := (Nat.log2_lt h0).2 hlt
    have h2 := (Nat.le_log2 h0).2 hle
    omega

/-! ## Fractions that read as a pattern -/

/-- **The fraction `n / d` reads as the pattern `p`**: it lies between the midpoints. -/
def Rounds (p n d : Nat) : Prop :=
  (units (p - 1) + units p) * d ≤ 2 * (n * unitsPerOne) ∧
    2 * (n * unitsPerOne) ≤ (units p + units (p + 1)) * d ∧
    (p % 2 = 1 → (units (p - 1) + units p) * d < 2 * (n * unitsPerOne) ∧
      2 * (n * unitsPerOne) < (units p + units (p + 1)) * d)

theorem rounds_iff_readsBack {p c : Nat} {k : Int} :
    readsBack p c k = true ↔ Rounds p (c * gridNum k) (gridDen k) := by
  unfold readsBack Rounds
  dsimp only
  rw [show 2 * c * gridNum k * unitsPerOne = 2 * (c * gridNum k * unitsPerOne) by ring]
  rcases Nat.mod_two_eq_zero_or_one p with h | h
  · rw [if_pos h]
    simp [h]
  · rw [if_neg (by omega)]
    simp only [Bool.and_eq_true, decide_eq_true_eq, h]
    exact ⟨fun hx => ⟨hx.1.le, hx.2.le, fun _ => hx⟩, fun hx => hx.2.2 trivial⟩

/-- Whether a fraction reads as a pattern depends on its value only. -/
theorem Rounds.of_eq {p n d n' d' : Nat} (h : Rounds p n d) (hd : 0 < d)
    (heq : n * d' = n' * d) (hd' : 0 < d') : Rounds p n' d' := by
  -- Both sides of each inequality are multiplied by `d'`, and then `d` is cancelled.
  have hx : 2 * (n * unitsPerOne) * d' = 2 * (n' * unitsPerOne) * d := by
    calc 2 * (n * unitsPerOne) * d' = 2 * unitsPerOne * (n * d') := by ring
      _ = 2 * (n' * unitsPerOne) * d := by rw [heq]; ring
  unfold Rounds at h ⊢
  generalize 2 * (n * unitsPerOne) = x at hx h
  generalize 2 * (n' * unitsPerOne) = x' at hx ⊢
  have hle : ∀ a, a * d ≤ x → a * d' ≤ x' := by
    intro a ha
    have := Nat.mul_le_mul_right d' ha
    rw [hx, Nat.mul_right_comm] at this
    exact Nat.le_of_mul_le_mul_right this hd
  have hle' : ∀ a, x ≤ a * d → x' ≤ a * d' := by
    intro a ha
    have := Nat.mul_le_mul_right d' ha
    rw [hx, Nat.mul_right_comm] at this
    exact Nat.le_of_mul_le_mul_right this hd
  have hlt : ∀ a, a * d < x → a * d' < x' := by
    intro a ha
    have := Nat.mul_lt_mul_of_pos_right ha hd'
    rw [hx, Nat.mul_right_comm] at this
    exact Nat.lt_of_mul_lt_mul_right this
  have hlt' : ∀ a, x < a * d → x' < a * d' := by
    intro a ha
    have := Nat.mul_lt_mul_of_pos_right ha hd'
    rw [hx, Nat.mul_right_comm] at this
    exact Nat.lt_of_mul_lt_mul_right this
  exact ⟨hle _ h.1, hle' _ h.2.1, fun hp => ⟨hlt _ (h.2.2 hp).1, hlt' _ (h.2.2 hp).2⟩⟩

/-- The midpoints in terms of significand and scale. -/
theorem Rounds.bounds {p n d : Nat} (hp : 0 < p) (h : Rounds p n d) :
    2 * (significand p * (d * 2 ^ scale p)) ≤ 2 * (n * unitsPerOne) + d * 2 ^ scale (p - 1) ∧
      2 * (n * unitsPerOne) ≤ 2 * (significand p * (d * 2 ^ scale p)) + d * 2 ^ scale p ∧
      (p % 2 = 1 →
        2 * (significand p * (d * 2 ^ scale p)) < 2 * (n * unitsPerOne) + d * 2 ^ scale (p - 1) ∧
        2 * (n * unitsPerOne) < 2 * (significand p * (d * 2 ^ scale p)) + d * 2 ^ scale p) := by
  have hpred := units_succ (p - 1)
  rw [Nat.sub_add_cancel hp] at hpred
  unfold Rounds at h
  generalize 2 * (n * unitsPerOne) = x at h ⊢
  have hmid : (units (p - 1) + units p) * d + d * 2 ^ scale (p - 1)
      = 2 * (significand p * (d * 2 ^ scale p)) := by
    calc (units (p - 1) + units p) * d + d * 2 ^ scale (p - 1)
        = (units (p - 1) + 2 ^ scale (p - 1) + units p) * d := by ring
      _ = 2 * (significand p * (d * 2 ^ scale p)) := by rw [← hpred, units_def]; ring
  have hmid' : (units p + units (p + 1)) * d
      = 2 * (significand p * (d * 2 ^ scale p)) + d * 2 ^ scale p := by
    rw [units_succ, units_def]
    ring
  rw [hmid'] at h
  generalize (units (p - 1) + units p) * d = low at h hmid
  generalize 2 * (significand p * (d * 2 ^ scale p)) = mid at h hmid ⊢
  refine ⟨by omega, h.2.1, fun hodd => ⟨?_, (h.2.2 hodd).2⟩⟩
  have := (h.2.2 hodd).1
  omega

theorem significand_mod_two (p : Nat) : significand p % 2 = p % 2 := by
  have h := scale_mul_binade_add_significand p
  have hb : binade = 2 * 2 ^ 51 := by decide
  rw [hb] at h
  omega

/-- A fraction below the first pattern of a binade is rounded up out of the binade before. -/
theorem scale_of_lt {p n d : Nat} (hp : 0 < p) (h : Rounds p n d)
    (hs : scale p ≠ 0) (hlt : n * unitsPerOne < d * 2 ^ (scale p + 52)) :
    significand p = binade ∧ scale (p - 1) + 1 = scale p := by
  obtain ⟨hlow, -, -⟩ := h.bounds hp
  have hD : d * 2 ^ (scale p + 52) = binade * (d * 2 ^ scale p) := by
    rw [Nat.pow_add]
    show d * (2 ^ scale p * binade) = _
    ring
  have hle : d * 2 ^ scale (p - 1) ≤ d * 2 ^ scale p :=
    Nat.mul_le_mul_left d (Nat.pow_le_pow_right (by decide) (scale_pred_le p))
  rw [hD] at hlt
  have hm : significand p = binade := by
    by_contra hne
    have hge := le_significand hs
    have := Nat.mul_le_mul_right (d * 2 ^ scale p) (show binade + 1 ≤ significand p by omega)
    rw [Nat.succ_mul] at this
    generalize n * unitsPerOne = u at hlow hlt
    generalize binade * (d * 2 ^ scale p) = b at hlt this
    omega
  refine ⟨hm, ?_⟩
  have hpp := scale_mul_binade_add_significand p
  rw [hm] at hpp
  have hb : 0 < binade := by decide
  obtain ⟨s, hs'⟩ : ∃ s, scale p = s + 1 := ⟨scale p - 1, by omega⟩
  rw [hs'] at hpp ⊢
  rw [Nat.succ_mul] at hpp
  rw [scale_eq (p := p - 1) (s := s) (m := 2 * binade - 1) (by omega) (by omega) fun _ => by omega]

/-- A fraction that reads as a pattern is read as it. -/
theorem nearestPattern_eq {p n d : Nat} (hp : 0 < p) (hfin : p < infinityPattern) (hd : 0 < d)
    (h : Rounds p n d) : nearestPattern n d = p := by
  suffices hs : scaleFor (n * unitsPerOne) d * binade
      + roundedDiv (n * unitsPerOne) (d * 2 ^ scaleFor (n * unitsPerOne) d) = p by
    unfold nearestPattern
    simp only [Nat.pow_eq]
    rw [hs, Nat.min_eq_left hfin.le]
  obtain ⟨hlow, hhigh, hodd⟩ := h.bounds hp
  have hcross := scale_of_lt hp h
  rw [← significand_mod_two] at hodd
  have hpp := scale_mul_binade_add_significand p
  have hm := significand_lt p
  generalize n * unitsPerOne = u at *
  have hpow : ∀ s, d * 2 ^ (s + 52) = binade * (d * 2 ^ s) := by
    intro s
    rw [Nat.pow_add]
    show d * (2 ^ s * binade) = _
    ring
  have hpow' : ∀ s, d * 2 ^ (s + 53) = 2 * (binade * (d * 2 ^ s)) := by
    intro s
    rw [← hpow, Nat.pow_succ]
    ring
  have hD : ∀ s, 0 < d * 2 ^ s := fun s => Nat.mul_pos hd (Nat.two_pow_pos s)
  by_cases hcase : scale p ≠ 0 ∧ u < d * 2 ^ (scale p + 52)
  · -- The fraction lies in the binade before; it is rounded to twice the least significand there.
    obtain ⟨hb, hs⟩ := hcross hcase.1 hcase.2
    have hlt := hcase.2
    rw [hb, ← hs] at hpp hlow
    rw [Nat.succ_mul] at hpp
    rw [← hs, hpow] at hlt
    have hdouble : d * 2 ^ (scale (p - 1) + 1) = 2 * (d * 2 ^ scale (p - 1)) := by
      rw [Nat.pow_succ]
      ring
    rw [hdouble, Nat.mul_left_comm binade] at hlt hlow
    have hpos := hD (scale (p - 1))
    have hle := Nat.mul_le_mul_right (d * 2 ^ scale (p - 1)) (show 1 ≤ binade by decide)
    have hscale : scaleFor u d = scale (p - 1) := by
      refine scaleFor_eq hd ⟨?_, fun _ => ?_⟩
      · rw [hpow']
        omega
      · rw [hpow]
        omega
    rw [hscale, roundedDiv_eq (m := 2 * binade) hpos]
    · omega
    · rw [Nat.mul_assoc]
      omega
    · rw [Nat.mul_assoc]
      omega
    · intro h2
      exact absurd h2 (by decide)
  · have hle : d * 2 ^ scale (p - 1) ≤ d * 2 ^ scale p :=
      Nat.mul_le_mul_left d (Nat.pow_le_pow_right (by decide) (scale_pred_le p))
    have hpos := hD (scale p)
    have hup := Nat.mul_le_mul_right (d * 2 ^ scale p) (show significand p + 1 ≤ 2 * binade from hm)
    rw [Nat.succ_mul, Nat.mul_assoc] at hup
    have hscale : scaleFor u d = scale p := by
      refine scaleFor_eq hd ⟨?_, fun h0 => ?_⟩
      · rw [hpow']
        omega
      · by_contra hlt
        exact hcase ⟨h0, by omega⟩
    rw [hscale, roundedDiv_eq (m := significand p) hpos]
    · exact hpp
    · omega
    · omega
    · intro h1
      have := hodd h1
      omega

/-! ## Decimals that read as a pattern -/

theorem units_pos {p : Nat} (hp : 0 < p) : 0 < units p := by
  have h := scale_mul_binade_add_significand p
  refine Nat.mul_pos ?_ (Nat.two_pow_pos _)
  by_cases hs : scale p = 0
  · rw [hs] at h
    omega
  · have := le_significand hs
    have hb : 0 < binade := by decide
    omega

theorem units_add_le (p : Nat) : units p + units (p + 1) ≤ 2 ^ (scale p + 54) := by
  have hm : 2 * significand p + 1 ≤ 2 ^ 54 := by
    have := significand_lt p
    have hb : 2 * (2 * binade) = 2 ^ 54 := by decide
    omega
  calc units p + units (p + 1) = (2 * significand p + 1) * 2 ^ scale p := by
        rw [units_succ, units_def]
        ring
    _ ≤ 2 ^ 54 * 2 ^ scale p := Nat.mul_le_mul_right _ hm
    _ = 2 ^ (scale p + 54) := by rw [← Nat.pow_add, Nat.add_comm]

theorem scale_le_of_finite {p : Nat} (hfin : p < infinityPattern) : scale p ≤ 2045 := by
  have : p / binade < 2047 := (Nat.div_lt_iff_lt_mul (by decide)).2 hfin
  unfold scale
  omega

theorem two_pow_le_ten_pow (k : Nat) : 2 ^ (3 * k) ≤ 10 ^ k := by
  rw [Nat.pow_mul]
  exact Nat.pow_le_pow_left (by decide) k

/-- One in units, with a variable for the exponent so that the power is never evaluated. -/
theorem unitsPerOne_eq {k : Nat} (hk : k = 1074) : unitsPerOne = 2 ^ k := by
  rw [unitsPerOne, ← hk, Nat.pow_eq]

/-- A decimal that reads as a finite pattern is not too large. -/
theorem exponent_le_of_rounds {p m : Nat} {e : Int} (hfin : p < infinityPattern) (hm : 0 < m)
    (h : Rounds p (m * gridNum e) (gridDen e)) : e ≤ 400 := by
  by_contra he
  obtain ⟨-, hhigh, -⟩ := h
  obtain ⟨k, hk⟩ : ∃ k, k = 1074 := ⟨_, rfl⟩
  have hone := unitsPerOne_eq hk
  have hden : gridDen e = 1 := by
    rw [gridDen_def, show (-e).toNat = 0 by omega, Nat.pow_zero]
  have hnum : 2 ^ (3 * e.toNat) ≤ m * gridNum e :=
    (two_pow_le_ten_pow _).trans (Nat.le_mul_of_pos_left _ hm)
  have hmul := Nat.mul_le_mul_right (2 ^ k) hnum
  rw [← Nat.pow_add] at hmul
  have hs := scale_le_of_finite hfin
  have htop := units_add_le p
  have hlt : 2 ^ (scale p + 54) ≤ 2 ^ (3 * e.toNat + k) :=
    Nat.pow_le_pow_right (by decide) (by omega)
  have hpos := Nat.two_pow_pos (3 * e.toNat + k)
  rw [hden, Nat.mul_one, hone] at hhigh
  omega

/-- A decimal that reads as a positive pattern is not too small. -/
theorem le_exponent_of_rounds {p m : Nat} {e : Int} (hp : 0 < p)
    (h : Rounds p (m * gridNum e) (gridDen e)) : -(401 + (m.log2 : Int)) ≤ e := by
  by_contra he
  obtain ⟨hlow, -, -⟩ := h
  obtain ⟨k, hk⟩ : ∃ k, k = 1074 := ⟨_, rfl⟩
  have hone := unitsPerOne_eq hk
  have hnum : gridNum e = 1 := by
    rw [gridNum_def, show e.toNat = 0 by omega, Nat.pow_zero]
  have hden : 2 ^ (3 * (-e).toNat) ≤ gridDen e := two_pow_le_ten_pow _
  have hle : gridDen e ≤ (units (p - 1) + units p) * gridDen e :=
    Nat.le_mul_of_pos_left _ (by have := units_pos hp; omega)
  have hm : m < 2 ^ (m.log2 + 1) := Nat.lt_log2_self
  have hmul := Nat.mul_lt_mul_of_pos_right hm (Nat.two_pow_pos (k + 1))
  rw [← Nat.pow_add, Nat.pow_succ 2 k, ← Nat.mul_assoc] at hmul
  have hlt : 2 ^ (m.log2 + 1 + (k + 1)) ≤ 2 ^ (3 * (-e).toNat) :=
    Nat.pow_le_pow_right (by decide) (by omega)
  rw [hnum, Nat.mul_one, hone] at hlow
  omega

theorem pos_of_rounds {p n d : Nat} (hp : 0 < p) (hd : 0 < d) (h : Rounds p n d) : 0 < n := by
  by_contra h0
  obtain ⟨hlow, -, -⟩ := h
  rw [show n = 0 by omega, Nat.zero_mul, Nat.mul_zero] at hlow
  have := Nat.mul_pos (show 0 < units (p - 1) + units p by have := units_pos hp; omega) hd
  omega

theorem gridDen_pos (k : Int) : 0 < gridDen k := Nat.pow_pos (by decide)

/-- **A decimal that reads as a pattern is read as it**, with whatever digits and exponent it is
written. -/
theorem nearestDecimal_eq {p m : Nat} {e : Int} (hp : 0 < p) (hfin : p < infinityPattern)
    (h : Rounds p (m * gridNum e) (gridDen e)) : nearestDecimal m e = p := by
  have hm : 0 < m := Nat.pos_of_mul_pos_right (pos_of_rounds hp (gridDen_pos e) h)
  have hhigh := exponent_le_of_rounds hfin hm h
  have hlow := le_exponent_of_rounds hp h
  unfold nearestDecimal
  rw [if_neg (by omega), if_neg (by omega), if_neg (by omega)]
  split
  · rename_i he
    rw [gridDen_def, show (-e).toNat = 0 by omega, Nat.pow_zero] at h
    exact nearestPattern_eq hp hfin Nat.one_pos h
  · rename_i he
    rw [gridNum_def, show e.toNat = 0 by omega, Nat.pow_zero, Nat.mul_one] at h
    exact nearestPattern_eq hp hfin (gridDen_pos e) h

end Scriptlet.Decimal

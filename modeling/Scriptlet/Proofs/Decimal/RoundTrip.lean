import Scriptlet.Decimal.Format
import Scriptlet.Decimal.Numeral
import Scriptlet.Proofs.Decimal.Binary64
import Scriptlet.Proofs.Decimal.Nearest

/-!
# Reading back what was written

A number written in full is read as the same number, for every double: both zeros, the infinities
and not-a-number are among them.  A natural number written in decimal is read as the same integer,
as long as it has no more digits than an integer may have.

The argument has two halves.  The digits that `shortest` finds read as the pattern they were found
for, since a search through ever finer grids ends at the latest where the double itself is on the
grid.  And the text keeps the digits and the exponent: however the point is placed, `unsigned?` gets
back a decimal of the same value.

* `shortest_rounds` — the decimal found reads as the pattern.
* `unsigned?_point`, `unsigned?_whole` — what `unsigned?` makes of digits, point and exponent.
* `readNumber?_write` — a number is read back from its text.
* `readInteger?_toString` — a natural number is read back from its decimal.
-/

set_option autoImplicit false
namespace Scriptlet.Decimal

open Scriptlet.Text

/-! ## The search ends -/

/-- A point of the grid that is the double itself reads back. -/
theorem rounds_of_units_eq {p n d : Nat} (hp : 0 < p) (hd : 0 < d)
    (h : n * unitsPerOne = units p * d) : Rounds p n d := by
  have hlow : units (p - 1) < units p := by
    have := units_succ (p - 1)
    have := Nat.two_pow_pos (scale (p - 1))
    rw [show p - 1 + 1 = p by omega] at *
    omega
  have hhigh : units p < units (p + 1) := by
    have := units_succ p
    have := Nat.two_pow_pos (scale p)
    omega
  have hlow' := Nat.mul_lt_mul_of_pos_right hlow hd
  have hhigh' := Nat.mul_lt_mul_of_pos_right hhigh hd
  refine ⟨?_, ?_, fun _ => ⟨?_, ?_⟩⟩ <;> rw [h, Nat.add_mul] <;> omega

/-- On the grid of `10 ^ -1075` every double has a point. -/
theorem onGrid?_finest {p : Nat} (hp : 0 < p) {k : Int} (hk : k = -1075) :
    ∃ c, onGrid? p k = some c := by
  obtain ⟨j, hj⟩ : ∃ j, j = 1074 := ⟨_, rfl⟩
  have hone := unitsPerOne_eq hj
  have hnum : gridNum k = 1 := by
    rw [gridNum_def, show k.toNat = 0 by omega, Nat.pow_zero]
  have hden : gridDen k = 2 * 5 ^ (j + 1) * unitsPerOne := by
    rw [gridDen_def, show (-k).toNat = j + 1 by omega, hone, show 10 = 2 * 5 from rfl, Nat.mul_pow,
      Nat.pow_succ 2 j]
    ring
  have hexact : units p * gridDen k = units p * (2 * 5 ^ (j + 1)) * unitsPerOne := by
    rw [hden]
    ring
  have hnear : roundedDiv (units p * gridDen k) (unitsPerOne * gridNum k)
      = units p * (2 * 5 ^ (j + 1)) := by
    rw [hnum, Nat.mul_one, hexact, roundedDiv_mul (by rw [hone]; exact Nat.two_pow_pos j)]
  refine ⟨units p * (2 * 5 ^ (j + 1)), ?_⟩
  have hreads : readsBack p (units p * (2 * 5 ^ (j + 1))) k = true := by
    rw [rounds_iff_readsBack]
    exact rounds_of_units_eq hp (gridDen_pos k) (by rw [hnum, Nat.mul_one, hexact])
  unfold onGrid?
  dsimp only
  rw [hnear, List.find?_cons, hreads]

theorem search_rounds {p : Nat} (hp : 0 < p) (fuel : Nat) (k : Int) (hk : -1075 ≤ k)
    (hfuel : k + 1075 < fuel) :
    Rounds p ((search p fuel k).1 * gridNum (search p fuel k).2) (gridDen (search p fuel k).2) := by
  induction fuel generalizing k with
  | zero => omega
  | succ fuel ih =>
    unfold search
    cases hc : onGrid? p k with
    | some c => exact rounds_iff_readsBack.1 (readsBack_of_onGrid? hc)
    | none =>
      have hne : k ≠ -1075 := by
        intro heq
        obtain ⟨c, hsome⟩ := onGrid?_finest hp heq
        rw [hc] at hsome
        exact nomatch hsome
      exact ih (k - 1) (by omega) (by omega)

/-- **The decimal found for a pattern reads as the pattern.** -/
theorem shortest_rounds {p : Nat} (hp : 0 < p) :
    Rounds p ((shortest p).1 * gridNum (shortest p).2) (gridDen (shortest p).2) := by
  have hk : -1075 ≤ leadingBound p := by
    unfold leadingBound
    omega
  exact search_rounds hp _ _ hk (by omega)

/-! ## Text that reading leaves as it is -/

/-- A character that is neither padding nor a digit of another script nor an underscore. -/
def Plain (c : Char) : Prop :=
  isPadding c = false ∧ asciiDigit c = c ∧ c ≠ '_'

instance : DecidablePred Plain := fun c =>
  inferInstanceAs (Decidable (isPadding c = false ∧ asciiDigit c = c ∧ c ≠ '_'))

/-- ASCII digits only. -/
def Digits (cs : List Char) : Prop :=
  ∀ c ∈ cs, c.isDigit = true

theorem mem_of_isDigit {c : Char} (h : c.isDigit = true) :
    c ∈ ['0', '1', '2', '3', '4', '5', '6', '7', '8', '9'] := by
  simp only [Char.isDigit, Bool.and_eq_true, decide_eq_true_eq] at h
  have hlow : 48 ≤ c.toNat := h.1
  have hhigh : c.toNat ≤ 57 := h.2
  rw [← Char.ofNat_toNat c]
  generalize c.toNat = n at hlow hhigh
  obtain rfl | rfl | rfl | rfl | rfl | rfl | rfl | rfl | rfl | rfl :
      n = 48 ∨ n = 49 ∨ n = 50 ∨ n = 51 ∨ n = 52 ∨ n = 53 ∨ n = 54 ∨ n = 55 ∨ n = 56 ∨ n = 57 := by
    omega
  all_goals decide

/-- What holds of the ten digits holds of every digit. -/
theorem forall_isDigit {P : Char → Prop} [DecidablePred P]
    (h : ['0', '1', '2', '3', '4', '5', '6', '7', '8', '9'].all (fun c => P c) = true) {c : Char}
    (hc : c.isDigit = true) : P c :=
  of_decide_eq_true (List.all_eq_true.1 h c (mem_of_isDigit hc))

theorem plain_of_isDigit {c : Char} (h : c.isDigit = true) : Plain c :=
  forall_isDigit (by decide) h

theorem Digits.plain {cs : List Char} (h : Digits cs) : ∀ c ∈ cs, Plain c :=
  fun c hc => plain_of_isDigit (h c hc)

theorem Digits.append {xs ys : List Char} (hx : Digits xs) (hy : Digits ys) : Digits (xs ++ ys) :=
  fun c hc => (List.mem_append.1 hc).elim (hx c) (hy c)

theorem digits_replicate (n : Nat) : Digits (List.replicate n '0') := fun c hc => by
  rw [List.eq_of_mem_replicate hc]
  rfl

theorem digits_toDigits (n : Nat) : Digits (Nat.toDigits 10 n) :=
  fun _ hc => Nat.isDigit_of_mem_toDigits (by decide) (by decide) hc

theorem trim_eq_self {p : Char → Bool} {cs : List Char} (h : ∀ c ∈ cs, p c = false) :
    trim p cs = cs := by
  have hstart : ∀ ds : List Char, (∀ c ∈ ds, p c = false) → trimStart p ds = ds := by
    rintro (_ | ⟨d, ds⟩) hds
    · rfl
    · exact List.dropWhile_cons_of_neg (by rw [hds d List.mem_cons_self]; decide)
  rw [trim, hstart cs h, hstart _ (fun c hc => h c (List.mem_reverse.1 hc)), List.reverse_reverse]

theorem joinDigits_eq_self {cs : List Char} (h : ∀ c ∈ cs, c ≠ '_') (afterDigit : Bool) :
    joinDigits afterDigit cs = some cs := by
  induction cs generalizing afterDigit with
  | nil => rfl
  | cons c cs ih =>
    have hc : c ≠ '_' := h c List.mem_cons_self
    have ih := ih (fun d hd => h d (List.mem_cons_of_mem _ hd)) c.isDigit
    rw [joinDigits, ih, Option.map_some]
    rintro rfl
    exact absurd rfl hc

theorem plain?_ofList {cs : List Char} (h : ∀ c ∈ cs, Plain c) :
    plain? (String.ofList cs) = some cs := by
  have hmap : cs.map asciiDigit = cs := by
    calc cs.map asciiDigit = cs.map id := List.map_congr_left fun c hc => (h c hc).2.1
      _ = cs := List.map_id cs
  rw [plain?, String.toList_ofList, trim_eq_self fun c hc => (h c hc).1, hmap,
    joinDigits_eq_self fun c hc => (h c hc).2.2]

/-! ## The value of digits -/

theorem digitsValue_append (xs ys : List Char) :
    digitsValue (xs ++ ys) = digitsValue xs * 10 ^ ys.length + digitsValue ys := by
  show Nat.ofDigitChars 10 (xs ++ ys) 0 = _
  rw [Nat.ofDigitChars_append, Nat.ofDigitChars_eq_ofDigitChars_zero, Nat.mul_comm]
  rfl

theorem digitsValue_replicate (n : Nat) : digitsValue (List.replicate n '0') = 0 := by
  show Nat.ofDigitChars 10 (List.replicate n '0') 0 = 0
  rw [Nat.ofDigitChars_replicate_zero, Nat.mul_zero]

theorem digitsValue_toDigits (n : Nat) : digitsValue (Nat.toDigits 10 n) = n :=
  Nat.ofDigitChars_ten_toDigits

/-! ## What the text of a decimal says -/

/-- The text of an exponent, or nothing for zero. -/
structure ExponentText (tail : List Char) (x : Int) : Prop where
  reads : exponent? tail = some x
  plain : ∀ c ∈ tail, Plain c

/-- `Writes cs m e` — the text `cs` has the digits of `m`, and says with its point and exponent that
they stand for `m * 10 ^ e`. -/
inductive Writes : List Char → Nat → Int → Prop where
  | whole {w tail : List Char} {x : Int} (digits : Digits w) (nonempty : w ≠ [])
      (exponent : ExponentText tail x) : Writes (w ++ tail) (digitsValue w) x
  | point {w f tail : List Char} {x : Int} (digits : Digits w) (nonempty : w ≠ [])
      (fraction : Digits f) (exponent : ExponentText tail x) :
      Writes (w ++ '.' :: (f ++ tail)) (digitsValue (w ++ f)) (x - f.length)

theorem ExponentText.nil : ExponentText [] 0 := ⟨rfl, nofun⟩

/-- An exponent starts with neither a digit nor a point. -/
theorem ExponentText.head {tail : List Char} {x : Int} (h : ExponentText tail x) :
    tail = [] ∨ ∃ c cs, tail = c :: cs ∧ c.isDigit = false ∧ c ≠ '.' := by
  obtain ⟨h, -⟩ := h
  rcases tail with _ | ⟨c, cs⟩
  · exact .inl rfl
  · refine .inr ⟨c, cs, rfl, ?_⟩
    rw [exponent?] at h
    by_cases hc : (c = 'e' || c = 'E') = true
    · simp only [Bool.or_eq_true, decide_eq_true_eq] at hc
      rcases hc with rfl | rfl <;> decide
    · rw [if_neg hc] at h
      exact nomatch h

theorem ExponentText.takeWhile_append {w tail : List Char} {x : Int} (h : ExponentText tail x)
    (hw : Digits w) : (w ++ tail).takeWhile Char.isDigit = w := by
  rw [List.takeWhile_append_of_pos hw]
  rcases h.head with rfl | ⟨c, cs, rfl, hc, -⟩
  · exact List.append_nil w
  · rw [List.takeWhile_cons_of_neg (by rw [hc]; decide), List.append_nil]

theorem ExponentText.dropWhile_append {w tail : List Char} {x : Int} (h : ExponentText tail x)
    (hw : Digits w) : (w ++ tail).dropWhile Char.isDigit = tail := by
  rw [List.dropWhile_append_of_pos hw]
  rcases h.head with rfl | ⟨c, cs, rfl, hc, -⟩
  · rfl
  · exact List.dropWhile_cons_of_neg (by rw [hc]; decide)

/-- **Reading gets back the digits and the exponent**, wherever the point stands. -/
theorem Writes.unsigned? {cs : List Char} {m : Nat} {e : Int} (h : Writes cs m e) :
    unsigned? cs = some (nearestDecimal m e) := by
  cases h with
  | @whole w tail x hw hne ht =>
    have hempty : w.isEmpty = false := List.isEmpty_eq_false_iff.2 hne
    unfold Decimal.unsigned?
    rw [ht.takeWhile_append hw, ht.dropWhile_append hw]
    have hread := ht.reads
    rcases ht.head with rfl | ⟨c, cs, rfl, -, hc⟩
    · simp [hempty, hread]
    · dsimp only
      split
      · rename_i heq
        cases heq
        exact absurd rfl hc
      · simp [hempty, hread]
  | @point w f tail x hw hne hf ht =>
    have hempty : w.isEmpty = false := List.isEmpty_eq_false_iff.2 hne
    have htake : (w ++ '.' :: (f ++ tail)).takeWhile Char.isDigit = w := by
      rw [List.takeWhile_append_of_pos hw, List.takeWhile_cons_of_neg (by decide), List.append_nil]
    have hdrop : (w ++ '.' :: (f ++ tail)).dropWhile Char.isDigit = '.' :: (f ++ tail) := by
      rw [List.dropWhile_append_of_pos hw, List.dropWhile_cons_of_neg (by decide)]
    unfold Decimal.unsigned?
    rw [htake, hdrop]
    simp [ht.takeWhile_append hf, ht.dropWhile_append hf, hempty, ht.reads]

theorem Writes.plain {cs : List Char} {m : Nat} {e : Int} (h : Writes cs m e) :
    ∀ c ∈ cs, Plain c := by
  intro c hc
  cases h with
  | whole hw _ ht => exact (List.mem_append.1 hc).elim (hw.plain c) (ht.plain c)
  | point hw _ hf ht =>
    rcases List.mem_append.1 hc with hc | hc
    · exact hw.plain c hc
    · rcases List.mem_cons.1 hc with rfl | hc
      · decide
      · exact (List.mem_append.1 hc).elim (hf.plain c) (ht.plain c)

/-- The text of a decimal starts with a digit. -/
theorem Writes.head {cs : List Char} {m : Nat} {e : Int} (h : Writes cs m e) :
    ∃ c rest, cs = c :: rest ∧ c.isDigit = true := by
  have cons : ∀ {w : List Char} (rest : List Char), Digits w → w ≠ [] →
      ∃ c tail, w ++ rest = c :: tail ∧ c.isDigit = true := by
    rintro (_ | ⟨c, w⟩) rest hw hne
    · exact absurd rfl hne
    · exact ⟨c, w ++ rest, rfl, hw c List.mem_cons_self⟩
  cases h with
  | whole hw hne _ => exact cons _ hw hne
  | point hw hne _ _ => exact cons _ hw hne

/-! ## The two notations -/

theorem exponentText_toDigits (e : Int) (zeros : Nat) :
    ExponentText ('e' :: (if e < 0 then '-' else '+') ::
      (List.replicate zeros '0' ++ Nat.toDigits 10 e.natAbs)) e := by
  have hd : Digits (List.replicate zeros '0' ++ Nat.toDigits 10 e.natAbs) :=
    (digits_replicate zeros).append (digits_toDigits _)
  have hvalue : digitsValue (List.replicate zeros '0' ++ Nat.toDigits 10 e.natAbs) = e.natAbs := by
    rw [digitsValue_append, digitsValue_replicate, digitsValue_toDigits, Nat.zero_mul, Nat.zero_add]
  have hall : (List.replicate zeros '0' ++ Nat.toDigits 10 e.natAbs).all Char.isDigit = true :=
    List.all_eq_true.2 hd
  have hempty : (List.replicate zeros '0' ++ Nat.toDigits 10 e.natAbs).isEmpty = false := by
    rw [List.isEmpty_eq_false_iff]
    exact List.append_ne_nil_of_right_ne_nil _ Nat.toDigits_ne_nil
  constructor
  · by_cases he : e < 0
    · simp only [he, if_true, exponent?, takeSign, hall, hempty, hvalue]
      show some (-(e.natAbs : Int)) = some e
      congr 1
      omega
    · simp only [he, if_false, exponent?, takeSign, hall, hempty, hvalue]
      show some (e.natAbs : Int) = some e
      congr 1
      omega
  · intro c hc
    rcases List.mem_cons.1 hc with rfl | hc
    · decide
    · rcases List.mem_cons.1 hc with rfl | hc
      · split <;> decide
      · exact hd.plain c hc

/-- With the point in place the text says the same value, though a whole number gains zeros. -/
theorem positional_writes {ds : List Char} (hd : Digits ds) (hne : ds ≠ []) {e k : Int}
    (hk : k = e + 1 - ds.length) :
    ∃ m x, Writes (positional ds e) m x ∧
      digitsValue ds * gridNum k * gridDen x = m * gridNum x * gridDen k := by
  unfold positional
  by_cases he : e < 0
  · rw [if_pos he]
    have hf := (digits_replicate (-e - 1).toNat).append hd
    have hw := Writes.point (digits_replicate 1) (by decide) hf .nil
    have hvalue : digitsValue (['0'] ++ (List.replicate (-e - 1).toNat '0' ++ ds)) =
        digitsValue ds := by
      rw [digitsValue_append, digitsValue_append, digitsValue_replicate]
      simp [digitsValue]
    have hx : 0 - ((List.replicate (-e - 1).toNat '0' ++ ds).length : Int) = k := by
      rw [List.length_append, List.length_replicate]
      omega
    rw [hx, List.append_nil] at hw
    exact ⟨_, k, hw, by rw [← hvalue]; rfl⟩
  · rw [if_neg he]
    dsimp only
    have htake : Digits (ds.take (e + 1).toNat) := fun c hc => hd c (List.mem_of_mem_take hc)
    have hw := htake.append (digits_replicate ((e + 1).toNat - ds.length))
    have hne' : ds.take (e + 1).toNat ++ List.replicate ((e + 1).toNat - ds.length) '0' ≠ [] := by
      have := List.length_pos_iff.2 hne
      rw [← List.length_pos_iff, List.length_append, List.length_take]
      omega
    by_cases hdrop : ds.drop (e + 1).toNat = []
    · -- a whole number: zeros up to the point and one behind it
      have hle : ds.length ≤ (e + 1).toNat := List.drop_eq_nil_iff.1 hdrop
      have hwrites := Writes.point hw hne' (digits_replicate 1) .nil
      rw [List.append_nil] at hwrites
      rw [hdrop]
      refine ⟨_, _, hwrites, ?_⟩
      rw [List.take_of_length_le hle, digitsValue_append, digitsValue_append, digitsValue_replicate,
        List.length_replicate, gridNum_def, gridDen_def, gridNum_def, gridDen_def,
        show k.toNat = (e + 1).toNat - ds.length by omega, show (-k).toNat = 0 by omega]
      simp [digitsValue]
    · have hwrites := Writes.point hw hne' (f := ds.drop (e + 1).toNat)
        (fun c hc => hd c (List.mem_of_mem_drop hc)) .nil
      have hlt : (e + 1).toNat < ds.length := by
        rw [List.drop_eq_nil_iff] at hdrop
        omega
      have hzeros : (e + 1).toNat - ds.length = 0 := by omega
      have hexponent : (0 : Int) - (ds.length - (e + 1).toNat : Nat) = k := by omega
      rw [hzeros, List.replicate_zero, List.append_nil, List.append_nil, List.take_append_drop,
        List.length_drop, hexponent] at hwrites
      rw [List.isEmpty_eq_false_iff.2 hdrop, hzeros, List.replicate_zero, List.append_nil]
      exact ⟨_, k, hwrites, rfl⟩

/-- With an exponent the text has the digits and the exponent as they are. -/
theorem scientific_writes (f : NumberFormat) {ds : List Char} (hd : Digits ds) (hne : ds ≠ [])
    {e k : Int} (hk : k = e + 1 - ds.length) :
    Writes (scientific f ds e) (digitsValue ds) k := by
  have hexp := exponentText_toDigits e (f.exponentDigits - (Nat.toDigits 10 e.natAbs).length)
  unfold scientific
  dsimp only
  rcases ds with _ | ⟨d, _ | ⟨d', ds⟩⟩
  · exact absurd rfl hne
  · have hw := Writes.whole hd hne hexp
    rw [show e = k by simp only [List.length_cons, List.length_nil] at hk; omega] at hw ⊢
    exact hw
  · have hw := Writes.point (w := [d]) (f := d' :: ds) (fun c hc => hd c (by simp_all))
      (by simp) (fun c hc => hd c (List.mem_cons_of_mem _ hc)) hexp
    rw [show e - ((d' :: ds).length : Int) = k by
      simp only [List.length_cons] at hk ⊢; omega] at hw
    exact hw

/-- The text of a decimal writes that decimal, perhaps with more zeros. -/
theorem writeDecimal_writes (f : NumberFormat) (d : Nat × Int) :
    ∃ m x, Writes (writeDecimal f d) m x ∧
      d.1 * gridNum d.2 * gridDen x = m * gridNum x * gridDen d.2 := by
  obtain ⟨c, k⟩ := d
  have hd := digits_toDigits c
  have hne : Nat.toDigits 10 c ≠ [] := Nat.toDigits_ne_nil
  have hvalue := digitsValue_toDigits c
  rw [writeDecimal]
  split
  · obtain ⟨m, x, hw, heq⟩ := positional_writes hd hne
      (e := k + (Nat.toDigits 10 c).length - 1) (k := k) (by omega)
    rw [hvalue] at heq
    exact ⟨m, x, hw, heq⟩
  · have hw := scientific_writes f hd hne
      (e := k + (Nat.toDigits 10 c).length - 1) (k := k) (by omega)
    rw [hvalue] at hw
    exact ⟨c, k, hw, rfl⟩

theorem writePattern_writes (f : NumberFormat) {p : Nat} (hp : 0 < p) :
    ∃ m x, Writes (writePattern f p) m x ∧ Rounds p (m * gridNum x) (gridDen x) := by
  have hrounds := shortest_rounds hp
  obtain ⟨m, x, hw, heq⟩ := writeDecimal_writes f (shortest p)
  rw [← writePattern] at hw
  exact ⟨m, x, hw, hrounds.of_eq (gridDen_pos _) heq (gridDen_pos x)⟩

theorem writeMagnitude_writes {p : Nat} (hfin : p < infinityPattern) :
    ∃ m x, Writes (writeMagnitude p) m x ∧ nearestDecimal m x = p := by
  unfold writeMagnitude
  split
  · rename_i hp
    refine ⟨_, _, .point (digits_replicate 1) (by decide) (digits_replicate 1) .nil, ?_⟩
    rw [hp]
    rfl
  · obtain ⟨m, x, hw, hrounds⟩ := writePattern_writes numberFormat (p := p) (by omega)
    exact ⟨m, x, hw, nearestDecimal_eq (by omega) hfin hrounds⟩

/-! ## Signs and names -/

theorem takeSign_signed {c : Char} {cs : List Char} (h : c.isDigit = true) (negative : Bool) :
    takeSign (signed negative (c :: cs)) = (negative, c :: cs) := by
  have hsign : c ≠ '-' ∧ c ≠ '+' :=
    forall_isDigit (P := fun c => c ≠ '-' ∧ c ≠ '+') (by decide) h
  cases negative
  · show takeSign (c :: cs) = (false, c :: cs)
    rw [takeSign]
    · exact fun _ heq => hsign.1 (List.cons.inj heq).1
    · exact fun _ heq => hsign.2 (List.cons.inj heq).1
  · rfl

theorem plain_signed {cs : List Char} (h : ∀ c ∈ cs, Plain c) (negative : Bool) :
    ∀ c ∈ signed negative cs, Plain c := by
  cases negative
  · exact h
  · intro c hc
    rcases List.mem_cons.1 hc with rfl | hc
    · decide
    · exact h c hc

/-- No name starts with a digit. -/
theorem named?_of_isDigit {c : Char} {cs : List Char} (h : c.isDigit = true) :
    named? (c :: cs) = none := by
  have hlower : c.toLower ≠ 'i' ∧ c.toLower ≠ 'n' :=
    forall_isDigit (P := fun c => c.toLower ≠ 'i' ∧ c.toLower ≠ 'n') (by decide) h
  have hi : ∀ name : List Char, ('i' :: name) ≠ (c :: cs).map Char.toLower := by
    intro name heq
    exact hlower.1 (List.cons.inj heq).1.symm
  have hn : ∀ name : List Char, ('n' :: name) ≠ (c :: cs).map Char.toLower := by
    intro name heq
    exact hlower.2 (List.cons.inj heq).1.symm
  unfold named?
  dsimp only
  rw [if_neg, if_neg]
  · exact fun heq => hn _ heq.symm
  · simp only [Bool.or_eq_true, decide_eq_true_eq]
    rintro (heq | heq)
    · exact hi _ heq.symm
    · exact hi _ heq.symm

theorem readNumber?_writes {cs : List Char} {m : Nat} {e : Int} (h : Writes cs m e)
    (hle : nearestDecimal m e ≤ infinityPattern) (negative : Bool) :
    readNumber? (String.ofList (signed negative cs))
      = some (ofPattern negative (nearestDecimal m e)) := by
  obtain ⟨c, rest, hcs, hc⟩ := h.head
  have htake : takeSign (signed negative cs) = (negative, cs) := by
    rw [hcs, takeSign_signed hc]
  have hnamed : named? cs = none := by rw [hcs, named?_of_isDigit hc]
  unfold readNumber?
  rw [plain?_ofList (plain_signed h.plain negative)]
  simp only [Option.bind_eq_bind, Option.bind_some, htake, hnamed, h.unsigned?, Option.none_or]
  rw [if_neg (by omega)]
  rfl

/-- **Every number is read back from its full text**, the infinities and not-a-number among them. -/
theorem readNumber?_write (x : Float) : readNumber? (write x) = some x := by
  unfold write writeChars
  cases h : view x with
  | nan => exact congrArg some (notANumber_of_nan h)
  | infinite negative =>
    rw [← ofPattern_of_infinite h]
    cases negative <;> rfl
  | finite negative p =>
    have hfin := lt_of_finite h
    obtain ⟨m, e, hw, heq⟩ := writeMagnitude_writes hfin
    rw [readNumber?_writes hw (by omega), heq, ofPattern_of_finite h]

/-- The text of a number has no padding in it. -/
theorem plain_write (x : Float) : ∀ c ∈ (write x).toList, Plain c := by
  rw [write, String.toList_ofList, writeChars]
  cases h : view x with
  | nan =>
    have hnan : Plain 'n' ∧ Plain 'a' := by decide
    simp [hnan]
  | infinite negative =>
    have hinf : Plain 'i' ∧ Plain 'n' ∧ Plain 'f' := by decide
    exact plain_signed (by simp [hinf]) negative
  | finite negative p =>
    obtain ⟨m, e, hw, -⟩ := writeMagnitude_writes (lt_of_finite h)
    exact plain_signed hw.plain negative

/-- The decimal of a natural number is read as that number, or is too long to be read. -/
theorem readInteger?_toString_eq (n : Nat) :
    readInteger? (toString n) =
      if integerDigitLimit < (Nat.toDigits 10 n).length then none else some (n : Int) := by
  have hd := digits_toDigits n
  have hall : (Nat.toDigits 10 n).all Char.isDigit = true := List.all_eq_true.2 hd
  have hempty : (Nat.toDigits 10 n).isEmpty = false :=
    List.isEmpty_eq_false_iff.2 Nat.toDigits_ne_nil
  have htake : takeSign (Nat.toDigits 10 n) = (false, Nat.toDigits 10 n) := by
    obtain ⟨c, rest, hcs⟩ := List.exists_cons_of_ne_nil (Nat.toDigits_ne_nil (b := 10) (n := n))
    have hc := hd c (by rw [hcs]; exact List.mem_cons_self)
    rw [hcs]
    exact takeSign_signed hc false
  rw [Nat.toString_eq_ofList_toDigits]
  unfold readInteger?
  rw [plain?_ofList hd.plain]
  simp only [Option.bind_eq_bind, Option.bind_some, htake, hall, hempty, digitsValue_toDigits,
    Bool.not_true, Bool.or_false, Bool.false_or, decide_eq_true_eq, Bool.false_eq_true, if_false]

/-- **A natural number is read back from its decimal**, up to the longest that an integer may
be. -/
theorem readInteger?_toString {n : Nat} (h : n < 10 ^ integerDigitLimit) :
    readInteger? (toString n) = some (n : Int) := by
  have hlen : (Nat.toDigits 10 n).length ≤ integerDigitLimit :=
    (Nat.length_toDigits_le_iff (by decide) (by decide)).2 h
  rw [readInteger?_toString_eq, if_neg (by omega)]

/-- A decimal is never read as another number. -/
theorem eq_of_readInteger?_toString {n : Nat} {m : Int} (h : readInteger? (toString n) = some m) :
    m = n := by
  rw [readInteger?_toString_eq] at h
  split at h
  · exact nomatch h
  · exact (Option.some.inj h).symm

end Scriptlet.Decimal

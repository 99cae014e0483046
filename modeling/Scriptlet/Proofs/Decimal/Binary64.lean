import Mathlib
import Scriptlet.Decimal.Binary64

/-!
# A double is its sign and its pattern

Taking a double apart with `view` loses nothing: `ofPattern` puts it together again.  There is one
double that is not a number, so the three cases of `view` are the doubles themselves.

The packed format of doubles is read through the number its bits make; beyond this file a double is
a sign and a pattern.
-/

set_option autoImplicit false
namespace Scriptlet.Decimal

open Float.Model Float.Model.UnpackedFloat

/-! ## The three fields as parts of one number -/

/-- The bits of a double. -/
abbrev Word := BitVec Format.binary64.numBits

theorem toNat_packComponents (s : Sign) (e : BitVec 11) (m : BitVec 52) :
    (packComponents Format.binary64 s e m).toNat
      = s.toBitVec.toNat * 2 ^ 63 + e.toNat * 2 ^ 52 + m.toNat := by
  have hs : s.toBitVec.toNat * 2 ^ 11 + e.toNat < 2 ^ 12 := by
    have := s.toBitVec.isLt
    have := e.isLt
    omega
  show (s.toBitVec ++ e ++ m).toNat = _
  rw [BitVec.toNat_append, BitVec.toNat_append, ← Nat.shiftLeft_add_eq_or_of_lt e.isLt,
    ← Nat.shiftLeft_add_eq_or_of_lt m.isLt, Nat.shiftLeft_eq, Nat.shiftLeft_eq]
  omega

theorem toNat_unpackMantissa (b : Word) :
    (unpackMantissa b).toNat = b.toNat % 2 ^ 52 := by
  simp [unpackMantissa]

theorem toNat_unpackExponent (b : Word) :
    (unpackExponent b).toNat = b.toNat / 2 ^ 52 % 2 ^ 11 := by
  simp [unpackExponent, Nat.shiftRight_eq_div_pow]

theorem toNat_unpackSign (b : Word) :
    (unpackSign b).toNat = b.toNat / 2 ^ 63 := by
  have hb : b.toNat < 2 ^ 64 := b.isLt
  have hlt : b.toNat / 2 ^ 63 < 2 := by omega
  simp only [unpackSign, BitVec.toNat_cast, BitVec.extractLsb_toNat, Nat.shiftRight_eq_div_pow]
  exact Nat.mod_eq_of_lt hlt

theorem toNat_toBitVec_ofBitVec (b : BitVec 1) : (Sign.ofBitVec b).toBitVec.toNat = b.toNat := by
  have := b.isLt
  by_cases h : b = 0#1
  · rw [h]; rfl
  · have : b.toNat ≠ 0 := fun h0 => h (BitVec.eq_of_toNat_eq h0)
    rw [Sign.ofBitVec, if_neg h]
    show 1 = _
    omega

/-- The fields of a word make up the word. -/
theorem packComponents_eq {b : Word} {s : Sign} {e : BitVec 11} {m : BitVec 52}
    (hs : s = Sign.ofBitVec (unpackSign b)) (he : e.toNat = (unpackExponent b).toNat)
    (hm : m.toNat = (unpackMantissa b).toNat) : packComponents Format.binary64 s e m = b := by
  apply BitVec.eq_of_toNat_eq
  have hb : b.toNat < 2 ^ 64 := b.isLt
  rw [toNat_packComponents, hs, he, hm, toNat_toBitVec_ofBitVec, toNat_unpackSign,
    toNat_unpackExponent, toNat_unpackMantissa]
  omega

theorem pack_subnormal {s : Sign} {m : Nat} {e : Int} (hpos : 0 < m) (hm : m < 2 ^ 52)
    (he : e = -1074) :
    UnpackedFloat.pack Format.binary64 (.finite s m e hpos)
      = packComponents Format.binary64 s 0#11 (BitVec.ofNat 52 m) := by
  have hlog : m.log2 < 52 := (Nat.log2_lt (Nat.ne_of_gt hpos)).2 hm
  subst he
  show (if m.log2 + 1 = 53 then _ else _) = _
  rw [if_neg (by omega)]

theorem pack_normal {s : Sign} {m k : Nat} {e : Int} (hpos : 0 < m) (hm : 2 ^ 52 ≤ m)
    (hm' : m < 2 ^ 53) (hk : k < 2047) (he : e = k - 1075) :
    UnpackedFloat.pack Format.binary64 (.finite s m e hpos)
      = packComponents Format.binary64 s (BitVec.ofNat 11 k) (BitVec.ofNat 52 m) := by
  have hlog : m.log2 < 53 := (Nat.log2_lt (Nat.ne_of_gt hpos)).2 hm'
  have hlog' : 52 ≤ m.log2 := (Nat.le_log2 (Nat.ne_of_gt hpos)).2 hm
  have hbias : Format.binary64.exponentBias = 1023 := by decide
  have hk' : (e + (Format.binary64.exponentBias : Nat) + (52 : Nat)).toNat = k := by
    rw [hbias]; omega
  unfold UnpackedFloat.pack
  dsimp only
  rw [hk', if_neg (by omega), if_pos]
  exact Nat.le_antisymm hlog (Nat.succ_le_succ hlog')

/-- **Unpacking loses nothing**: packing gives the word back, if it is a number or the one word that
stands for what is not a number. -/
theorem pack_unpack {b : Word} (hb : Format.binary64.Valid b) :
    UnpackedFloat.pack Format.binary64 (UnpackedFloat.unpack Format.binary64 b) = b := by
  have hmant : (unpackMantissa b).toNat < 2 ^ 52 := (unpackMantissa b).isLt
  have hexp : (unpackExponent b).toNat < 2 ^ 11 := (unpackExponent b).isLt
  have hbias : (Format.binary64.exponentBias : Int) = 1023 := by decide
  unfold UnpackedFloat.unpack
  dsimp only
  split
  · rename_i he
    split
    · rename_i hm
      exact packComponents_eq rfl (by rw [he]) (by rw [hm]; rfl)
    · rename_i hm
      exact (hb.eq_packedNaN he hm).symm
  · rename_i hne
    split
    · rename_i he
      split
      · rename_i hm
        exact packComponents_eq rfl (by rw [he]; rfl) (by rw [hm]; rfl)
      · rename_i hm
        rw [pack_subnormal _ hmant (by rw [he, hbias]; rfl)]
        exact packComponents_eq rfl (by rw [he])
          (by rw [BitVec.toNat_ofNat, Nat.mod_eq_of_lt hmant])
    · rename_i he
      have hm : (1#1 ++ unpackMantissa b).toNat = 2 ^ 52 + (unpackMantissa b).toNat := by
        rw [BitVec.toNat_append, ← Nat.shiftLeft_add_eq_or_of_lt (unpackMantissa b).isLt]
        rfl
      have hlt : (unpackExponent b).toNat < 2047 := by
        have : (unpackExponent b).toNat ≠ 2047 := fun h => hne (BitVec.eq_of_toNat_eq h)
        omega
      rw [pack_normal _ (by omega) (by omega) hlt (by rw [hbias]; omega)]
      refine packComponents_eq rfl ?_ ?_
      · rw [BitVec.toNat_ofNat, Nat.mod_eq_of_lt hexp]
      · rw [BitVec.toNat_ofNat, hm]
        omega

/-! ## Doubles -/

theorem ofBits_toBits (x : Float) : Float.ofBits x.toBits = x := by
  obtain ⟨bits, hvalid⟩ := x
  have h := pack_unpack hvalid
  show Float.ofModel ⟨UInt64.ofBitVec _, _⟩ = _
  congr 2
  exact congrArg UInt64.ofBitVec h

theorem ofPattern_eq {x : Float} {negative : Bool} {p : Nat}
    (h : x.toBits.toNat = if negative then 2 ^ 63 + p else p) : ofPattern negative p = x := by
  rw [ofPattern, Nat.pow_eq, ← h, UInt64.ofNat_toNat, ofBits_toBits]

/-- What `view` says about the bits. -/
theorem toBits_of_view (x : Float) :
    match view x with
    | .finite negative p =>
      p < infinityPattern ∧ x.toBits.toNat = if negative then 2 ^ 63 + p else p
    | .infinite negative =>
      x.toBits.toNat = if negative then 2 ^ 63 + infinityPattern else infinityPattern
    | .nan => infinityPattern < x.toBits.toNat % 2 ^ 63 := by
  have hlt : x.toBits.toNat < 2 ^ 64 := x.toBits.toNat_lt
  have hbits : x.toBits.toNat = if decide (2 ^ 63 ≤ x.toBits.toNat) then
      2 ^ 63 + x.toBits.toNat % 2 ^ 63 else x.toBits.toNat % 2 ^ 63 := by
    split <;> rename_i h <;> simp only [decide_eq_true_eq] at h <;> omega
  unfold view
  simp only [Nat.pow_eq]
  rcases Nat.lt_trichotomy (x.toBits.toNat % 2 ^ 63) infinityPattern with h | h | h
  · rw [if_pos h]
    exact ⟨h, hbits⟩
  · rw [if_neg (by omega), if_pos h]
    rw [h] at hbits
    exact hbits
  · rw [if_neg (by omega), if_neg (by omega)]
    exact h

theorem ofPattern_of_finite {x : Float} {negative : Bool} {p : Nat}
    (h : view x = .finite negative p) : ofPattern negative p = x := by
  have hx := toBits_of_view x
  rw [h] at hx
  exact ofPattern_eq hx.2

theorem lt_of_finite {x : Float} {negative : Bool} {p : Nat} (h : view x = .finite negative p) :
    p < infinityPattern := by
  have hx := toBits_of_view x
  rw [h] at hx
  exact hx.1

theorem ofPattern_of_infinite {x : Float} {negative : Bool} (h : view x = .infinite negative) :
    ofPattern negative infinityPattern = x := by
  have hx := toBits_of_view x
  rw [h] at hx
  exact ofPattern_eq hx

/-- One word stands for what is not a number. -/
theorem toNat_of_nan {b : Word} (hb : Format.binary64.Valid b)
    (h : infinityPattern < b.toNat % 2 ^ 63) : b.toNat = infinityPattern + binade / 2 := by
  have hlt : b.toNat < 2 ^ 64 := b.isLt
  have hinf : infinityPattern = 2047 * 2 ^ 52 := rfl
  have hexp : unpackExponent b = -1#_ := by
    apply BitVec.eq_of_toNat_eq
    rw [toNat_unpackExponent]
    show _ = 2047
    omega
  have hmant : unpackMantissa b ≠ 0#_ := by
    intro h0
    have hmod : b.toNat % 2 ^ 52 = 0 := by
      rw [← toNat_unpackMantissa, h0]
      rfl
    omega
  exact congrArg BitVec.toNat (hb.eq_packedNaN hexp hmant)

theorem notANumber_of_nan {x : Float} (h : view x = .nan) : notANumber = x := by
  have hx := toBits_of_view x
  rw [h] at hx
  exact ofPattern_eq (toNat_of_nan x.toModel.valid hx)

end Scriptlet.Decimal

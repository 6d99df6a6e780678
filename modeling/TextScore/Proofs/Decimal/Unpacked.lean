import Mathlib
import TextScore.Decimal.Binary64
import TextScore.Proofs.Decimal.Arithmetic

/-!
# Unpacked — the fields of a double are its value

Printing and rounding to whole numbers read a double from its bits, arithmetic unpacks it.  Both
find the same sign, mantissa and exponent.
-/

namespace TextScore.Decimal

open Float.Model Float.Model.UnpackedFloat

/-! ## 1. Fields -/

namespace Binary64

def isNegative : Sign → Bool
  | .negative => true
  | .positive => false

/-- What is read from the bits of an unpacked double. -/
def ofUnpacked : UnpackedFloat → Binary64
  | .notANumber => .nan
  | .infinity s => .infinite (isNegative s)
  | .zero s => .finite (isNegative s) 0 (-1074)
  | .finite s m e _ => .finite (isNegative s) m e

section

variable (b : BitVec 64)

theorem toNat_unpackExponent :
    (@unpackExponent .binary64 b).toNat = b.toNat / twoTo 52 % twoTo 11 := by
  show (BitVec.extractLsb 62 52 b).toNat = _
  rw [BitVec.extractLsb_toNat, Nat.shiftRight_eq_div_pow]
  rfl

theorem toNat_unpackMantissa : (@unpackMantissa .binary64 b).toNat = b.toNat % twoTo 52 := by
  show (BitVec.extractLsb 51 0 b).toNat = _
  rw [BitVec.extractLsb_toNat, Nat.shiftRight_zero]
  rfl

theorem isNegative_unpackSign :
    isNegative (Sign.ofBitVec (@unpackSign .binary64 b)) = (b.toNat / twoTo 63 % 2 == 1) := by
  have hbit : (@unpackSign .binary64 b).toNat = b.toNat / twoTo 63 % 2 := by
    show (BitVec.extractLsb 63 63 b).toNat = _
    rw [BitVec.extractLsb_toNat, Nat.shiftRight_eq_div_pow]
    rfl
  rw [← hbit]
  unfold Sign.ofBitVec
  by_cases hzero : @unpackSign .binary64 b = 0#1
  · rw [if_pos hzero, hzero]
    rfl
  · have hone : @unpackSign .binary64 b = 1#1 := by
      generalize @unpackSign .binary64 b = bit at hzero ⊢
      revert bit
      decide
    rw [if_neg hzero, hone]
    rfl

end

theorem ofFloat_eq (x : Float) : ofFloat x = ofUnpacked x.toModel.unpack := by
  show ofBits x.toBits.toBitVec.toNat =
    ofUnpacked (UnpackedFloat.unpack .binary64 x.toBits.toBitVec)
  generalize x.toBits.toBitVec = b
  have hexponent := toNat_unpackExponent b
  have hmantissa := toNat_unpackMantissa b
  have hones : @unpackExponent .binary64 b = -1#11 ↔ b.toNat / twoTo 52 % twoTo 11 = 2047 := by
    rw [← hexponent, ← BitVec.toNat_inj]
    rfl
  have hexponentZero : @unpackExponent .binary64 b = 0#11 ↔
      b.toNat / twoTo 52 % twoTo 11 = 0 := by
    rw [← hexponent, ← BitVec.toNat_inj]
    rfl
  have hmantissaZero : @unpackMantissa .binary64 b = 0#52 ↔ b.toNat % twoTo 52 = 0 := by
    rw [← hmantissa, ← BitVec.toNat_inj]
    rfl
  -- the exponent field tells the four cases apart, and then whether the mantissa is zero
  unfold ofBits UnpackedFloat.unpack
  by_cases hlarge : b.toNat / twoTo 52 % twoTo 11 = 2047
  · simp only [hlarge, hones.mpr hlarge, if_true]
    by_cases hzero : b.toNat % twoTo 52 = 0
    · simp only [hzero, hmantissaZero.mpr hzero, if_true, ofUnpacked, isNegative_unpackSign]
    · simp only [hzero, mt hmantissaZero.mp hzero, if_false, ofUnpacked]
  · simp only [hlarge, mt hones.mp hlarge, if_false]
    by_cases hsmall : b.toNat / twoTo 52 % twoTo 11 = 0
    · simp only [hsmall, hexponentZero.mpr hsmall, if_true]
      by_cases hzero : b.toNat % twoTo 52 = 0
      · simp only [hzero, hmantissaZero.mpr hzero, dif_pos, ofUnpacked, isNegative_unpackSign]
      · simp only [mt hmantissaZero.mp hzero, dif_neg, not_false_eq_true, ofUnpacked,
          isNegative_unpackSign, hmantissa]
        rfl
    · simp only [hsmall, mt hexponentZero.mp hsmall, if_false, ofUnpacked, isNegative_unpackSign,
        hexponent]
      have hwhole : (1#1 ++ @unpackMantissa .binary64 b).toNat =
          b.toNat % twoTo 52 + twoTo 52 := by
        have hlt : b.toNat % twoTo 52 < 2 ^ 52 := Nat.mod_lt _ (by decide)
        rw [BitVec.toNat_append, hmantissa, Nat.shiftLeft_eq, Nat.mul_comm]
        exact (Nat.two_pow_add_eq_or_of_lt hlt 1).symm.trans (Nat.add_comm _ _)
      rw [hwhole]
      rfl

end Binary64

/-- What the fields of a double say, given the number that it denotes. -/
theorem ofFloat_of_denotes {x : Float} {q : ℚ} (h : Denotes x q) :
    (q = 0 ∧ ∃ negative, Binary64.ofFloat x = .finite negative 0 (-1074)) ∨
      ∃ s m e, Normal m e ∧ q = signed s (m * (2 : ℚ) ^ e) ∧
        Binary64.ofFloat x = .finite (Binary64.isNegative s) m e := by
  rw [Binary64.ofFloat_eq]
  unfold Denotes at h
  generalize x.toModel.unpack = u at h
  cases h with
  | zero s => exact Or.inl ⟨rfl, Binary64.isNegative s, rfl⟩
  | @finite s m e _ hn => exact Or.inr ⟨s, m, e, hn, rfl, rfl⟩

/-! ## 2. Whole numbers -/

theorem twoTo_eq (k : ℕ) : twoTo k = 2 ^ k :=
  Nat.one_shiftLeft k

/-- A number that is not below zero is its mantissa and exponent. -/
theorem ofFloat_of_nonneg {x : Float} {q : ℚ} (h : Denotes x q) (hq : 0 ≤ q) :
    ∃ negative m e, Binary64.ofFloat x = .finite negative m e ∧ q = m * (2 : ℚ) ^ e ∧
      (negative = true → q = 0) := by
  rcases ofFloat_of_denotes h with ⟨hzero, negative, hfields⟩ | ⟨s, m, e, hn, hvalue, hfields⟩
  · exact ⟨negative, 0, -1074, hfields, by rw [hzero, Nat.cast_zero, zero_mul], fun _ => hzero⟩
  · cases s
    · have hm := hn.pos
      have hpos : (0 : ℚ) < m * 2 ^ e := by positivity
      rw [hvalue, signed_negative] at hq
      linarith
    · exact ⟨false, m, e, hfields, hvalue, fun hneg => by cases hneg⟩

/-- A whole number is its own nearest whole number. -/
theorem Denotes.roundHalfAway {x : Float} {n : ℕ} (h : Denotes x n) (hn : n < 2 ^ 53) :
    Denotes (roundHalfAway x) n := by
  obtain ⟨negative, m, e, hfields, hvalue, hnegative⟩ := ofFloat_of_nonneg h (Nat.cast_nonneg n)
  unfold Decimal.roundHalfAway
  rw [hfields]
  by_cases he : 0 ≤ e
  · simp only [he, if_true]
    exact h
  · simp only [he, if_false]
    -- the mantissa is a multiple of what it is divided by
    have hm : m = n * 2 ^ (-e).toNat := by
      have hpow : (2 : ℚ) ^ (-e).toNat = 2 ^ (-e) := by
        rw [← zpow_natCast, Int.toNat_of_nonneg (by omega)]
      have : (m : ℚ) = n * 2 ^ (-e).toNat := by
        rw [hvalue, hpow, mul_assoc, ← zpow_add₀ (by norm_num), add_neg_cancel, zpow_zero, mul_one]
      exact_mod_cast this
    have hwhole : (2 * m + twoTo (-e).toNat) / (2 * twoTo (-e).toNat) = n := by
      have hpos : 0 < 2 ^ (-e).toNat := Nat.two_pow_pos _
      rw [hm, twoTo_eq]
      generalize 2 ^ (-e).toNat = d at hpos
      have hcomm : n * (2 * d) = 2 * (n * d) := by ring
      have hnext : (n + 1) * (2 * d) = 2 * (n * d) + 2 * d := by ring
      apply Nat.div_eq_of_lt_le
      · omega
      · omega
    rw [hwhole]
    cases negative
    · exact denotes_ofNat hn
    · have hzero := hnegative rfl
      have hneg := (denotes_ofNat hn).neg
      rw [hzero, neg_zero] at hneg
      rw [hzero]
      exact hneg

end TextScore.Decimal

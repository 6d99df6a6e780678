import Mathlib
import TextScore.Proofs.Decimal.Arithmetic

/-!
# Scientific — doubles that are made from decimals

A whole number times a power of ten becomes the nearest double.  So do whole numbers and powers of
ten by themselves, and both keep their order.
-/

namespace TextScore.Decimal

open Float.Model Float.Model.UnpackedFloat

/-- Where no shorter way is taken, the number is rounded once. -/
theorem exists_standsAt_ofScientific {m e : ℕ} (hm : 0 < m) (he : e ≤ 2048)
    (hlong : ¬(m < 2 ^ 53 ∧ e ≤ 22)) :
    ∃ w, Nearest (m * (10 : ℚ) ^ e) w ∧ StandsAt (Float.ofScientific m false e) (clip w) := by
  have hwide : 2 ^ 52 ≤ (m <<< 53) * 10 ^ e := by
    rw [Nat.shiftLeft_eq]
    have hten : 0 < 10 ^ e := Nat.pow_pos (by decide)
    calc 2 ^ 52 ≤ 2 ^ 53 := by decide
      _ ≤ m * 2 ^ 53 := Nat.le_mul_of_pos_left _ hm
      _ ≤ m * 2 ^ 53 * 10 ^ e := Nat.le_mul_of_pos_right _ hten
  have hvalue : (m : ℚ) * (10 : ℚ) ^ e = (((m <<< 53) * 10 ^ e : ℕ) : ℚ) * 2 ^ (-53 + 0 : ℤ) := by
    rw [Nat.shiftLeft_eq]
    push_cast
    norm_num
    ring
  have hunpacked : UnpackedFloat.ofScientific .binary64 m e =
      roundWithAccuracy .binary64 .positive ((m <<< 53) * 10 ^ e) (-53 + 0) .exact := by
    have hlow : ¬(e : ℤ) < -((2 ^ Format.binary64.exponentBits : ℤ) + m.log2) := by
      show ¬(e : ℤ) < -(2048 + (m.log2 : ℤ))
      omega
    have hhigh : ¬(e : ℤ) > 2 ^ Format.binary64.exponentBits := by
      show ¬(e : ℤ) > 2048
      omega
    unfold UnpackedFloat.ofScientific
    rw [dif_neg hm.ne', if_neg hhigh, if_neg hlow, if_pos (Int.natCast_nonneg e)]
    have hbits : Format.binary64.mantissaBits = 53 := rfl
    have hsign : Sign.positive * Sign.positive = .positive := rfl
    simp only [UnpackedFloat.mul, Int.toNat_natCast, hbits, hsign, Nat.cast_ofNat]
  have hresult : Float.ofScientific m false e = .ofModel (.pack
      (roundWithAccuracy .binary64 .positive ((m <<< 53) * 10 ^ e) (-53 + 0) .exact)) := by
    rw [← hunpacked]
    unfold Float.ofScientific
    rw [dif_neg hlong]
    rfl
  obtain ⟨w, hw, hnearest⟩ := exists_nearest_roundWithAccuracy .positive (.inl hwide)
    (describes_exact _) (Nat.cast_nonneg _) hvalue
  exact ⟨w, hnearest, Reads.standsAt hw hresult⟩

/-- A whole number becomes the nearest double. -/
theorem exists_standsAt_ofNat (n : ℕ) : ∃ w, Nearest n w ∧ StandsAt (Float.ofNat n) (clip w) := by
  by_cases hn : n < 2 ^ 53
  · have hstands := (denotes_ofNat hn).standsAt
    have hlt : |(n : ℚ)| < limit := by
      have hn' : (n : ℚ) < 2 ^ (53 : ℤ) := by exact_mod_cast hn
      rw [Nat.abs_cast]
      exact hn'.trans (zpow_lt_zpow_right₀ (by norm_num) (by norm_num))
    refine ⟨n, hstands.nearest, ?_⟩
    rwa [clip_of_lt hlt]
  · have h := exists_standsAt_ofScientific (by omega) (Nat.zero_le 2048) (fun h => hn h.1)
    rwa [pow_zero, mul_one] at h

theorem ofNat_le_ofNat {a b : ℕ} (h : a ≤ b) : Float.ofNat a ≤ Float.ofNat b := by
  obtain ⟨v, hv, hvstands⟩ := exists_standsAt_ofNat a
  obtain ⟨w, hw, hwstands⟩ := exists_standsAt_ofNat b
  have hab : (a : ℚ) ≤ b := by exact_mod_cast h
  exact (hvstands.le_iff hwstands).mpr (clip_mono (hv.mono hw (Nat.cast_nonneg a) hab))

theorem isFinite_of_le {x y : Float} (hx : 0 ≤ x) (h : x ≤ y) (hy : y.isFinite = true) :
    x.isFinite = true := by
  obtain ⟨p, q, hp, hq, hle⟩ := exists_standsAt_of_le h
  have hp0 : 0 ≤ p := (standsAt_zero.le_iff hp).mp hx
  rw [hq.isFinite_iff, abs_of_nonneg (hp0.trans hle)] at hy
  rw [hp.isFinite_iff, abs_of_nonneg hp0]
  exact hle.trans_lt hy

/-- A product of numbers that are not below zero is finite if that of larger ones is. -/
theorem isFinite_mul_of_le {x x' y y' : Float} (hx : 0 ≤ x) (hxx : x ≤ x') (hy : 0 ≤ y)
    (hyy : y ≤ y') (hx' : x'.isFinite = true) (hy' : y'.isFinite = true)
    (h : (x' * y').isFinite = true) : (x * y).isFinite = true := by
  obtain ⟨p, p', hp, hp', hple⟩ := exists_standsAt_of_le hxx
  obtain ⟨q, q', hq, hq', hqle⟩ := exists_standsAt_of_le hyy
  have hp0 : 0 ≤ p := (standsAt_zero.le_iff hp).mp hx
  have hq0 : 0 ≤ q := (standsAt_zero.le_iff hq).mp hy
  rw [hp'.isFinite_iff, abs_of_nonneg (hp0.trans hple)] at hx'
  rw [hq'.isFinite_iff, abs_of_nonneg (hq0.trans hqle)] at hy'
  obtain ⟨w, hw, hstands⟩ := hp.exists_mul hq
    (lt_of_eq_of_lt (abs_of_nonneg hp0) (hple.trans_lt hx'))
    (lt_of_eq_of_lt (abs_of_nonneg hq0) (hqle.trans_lt hy'))
  obtain ⟨w', hw', hstands'⟩ := hp'.exists_mul hq'
    (lt_of_eq_of_lt (abs_of_nonneg (hp0.trans hple)) hx')
    (lt_of_eq_of_lt (abs_of_nonneg (hq0.trans hqle)) hy')
  have hpq : 0 ≤ p * q := mul_nonneg hp0 hq0
  have hle : p * q ≤ p' * q' := mul_le_mul hple hqle hq0 (hp0.trans hple)
  have hclip : clip w ≤ clip w' := clip_mono (hw.mono hw' hpq hle)
  have hclip0 : 0 ≤ clip w := le_clip (Nearest.zero.mono hw le_rfl hpq) limit_pos.le
  rw [hstands'.isFinite_iff, abs_of_nonneg (hclip0.trans hclip)] at h
  rw [hstands.isFinite_iff, abs_of_nonneg hclip0]
  exact hclip.trans_lt h

/-- A quotient is not larger than what is divided by one or more. -/
theorem isFinite_div_of_one_le {x y : Float} (hx : x.isFinite = true) (hy : y.isFinite = true)
    (hone : 1 ≤ y) : (x / y).isFinite = true := by
  obtain ⟨p, hp, hplt⟩ := exists_standsAt_of_isFinite hx
  obtain ⟨q, hq, hqlt⟩ := exists_standsAt_of_isFinite hy
  have hstands : StandsAt 1 ((1 : ℕ) : ℚ) := (denotes_ofNat (by decide)).standsAt
  have hq1 : 1 ≤ q := by
    have := (hstands.le_iff hq).mp hone
    rwa [Nat.cast_one] at this
  obtain ⟨w, hw, hquotient⟩ := hp.exists_div hq hplt hqlt (by linarith)
  have hless : |p / q| ≤ |p| := by
    rw [abs_div, abs_of_pos (by linarith : 0 < q)]
    exact div_le_self (abs_nonneg p) hq1
  have hwle : |w| ≤ |p| := hw.abs.mono hp.nearest.abs (abs_nonneg _) hless
  have hwlt := hwle.trans_lt hplt
  rw [clip_of_lt hwlt] at hquotient
  exact hquotient.isFinite_iff.mpr hwlt

theorem isFinite_neg {x : Float} (h : x.isFinite = true) : (-x).isFinite = true := by
  obtain ⟨q, hq, hlt⟩ := exists_standsAt_of_isFinite h
  exact (hq.neg hlt).isFinite_iff.mpr (lt_of_eq_of_lt (abs_neg q) hlt)

end TextScore.Decimal

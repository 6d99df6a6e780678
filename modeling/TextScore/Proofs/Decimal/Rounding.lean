import Mathlib

/-!
# Rounding — the number that stands for another

The arithmetic of doubles works on mantissas and exponents: a result is computed with two bits more
than fit, shifted until it fits, and rounded by what these bits have kept of the rest.  Read as
rational numbers, a result is rounded to the nearest multiple of its last place, and halfway between
two to the even one.  The last place is the 53rd place of the number, but never one behind the last
place of the format.  Rounding keeps numbers in order, and it is exact where 53 places are enough.
There is no greatest exponent yet: what is too large is told when a result is packed.
-/

namespace TextScore.Decimal

open Float.Model Float.Model.UnpackedFloat

/-! ## 1. Mantissas and what has been cut off -/

/-- What the two residual bits tell about the part that has been cut off. -/
def Residue (roundBit stickyBit : Bool) (rest : ℚ) : Prop :=
  match roundBit, stickyBit with
  | false, false => rest = 0
  | false, true => 0 < rest ∧ rest < 1 / 2
  | true, false => rest = 1 / 2
  | true, true => 1 / 2 < rest ∧ rest < 1

/-- The number is the mantissa and a rest that the residual bits tell about. -/
def Describes (em : ExtendedMantissa) (x : ℚ) : Prop :=
  Residue em.roundBit em.stickyBit (x - em.mantissa)

namespace Describes

variable {em : ExtendedMantissa} {x : ℚ}

theorem mantissa_le (h : Describes em x) : em.mantissa ≤ x := by
  obtain ⟨m, r, s⟩ := em
  cases r <;> cases s <;> simp only [Describes, Residue] at h <;> linarith

theorem lt_mantissa_add_one (h : Describes em x) : x < em.mantissa + 1 := by
  obtain ⟨m, r, s⟩ := em
  cases r <;> cases s <;> simp only [Describes, Residue] at h <;> linarith

/-- The last place of the mantissa becomes the first of the two residual bits. -/
theorem shiftRightOne (h : Describes em x) : Describes em.shiftRightOne (x / 2) := by
  obtain ⟨m, r, s⟩ := em
  have hm : (m : ℚ) = 2 * (m / 2 : ℕ) + (m % 2 : ℕ) := by
    exact_mod_cast (Nat.div_add_mod m 2).symm
  show Residue (m % 2 != 0) (r || s) (x / 2 - (m / 2 : ℕ))
  rcases Nat.mod_two_eq_zero_or_one m with hbit | hbit
  -- an even mantissa leaves half of the rest
  · rw [hbit, Nat.cast_zero] at hm
    rw [hbit]
    cases r <;> cases s <;> simp only [Describes, Residue] at h
    · show x / 2 - _ = 0
      linarith
    all_goals
      show 0 < x / 2 - _ ∧ x / 2 - _ < 1 / 2
      constructor <;> linarith
  -- an odd one leaves half of the rest and another half
  · rw [hbit, Nat.cast_one] at hm
    rw [hbit]
    cases r <;> cases s <;> simp only [Describes, Residue] at h
    · show x / 2 - _ = 1 / 2
      linarith
    all_goals
      show 1 / 2 < x / 2 - _ ∧ x / 2 - _ < 1
      constructor <;> linarith

theorem shiftRight (h : Describes em x) (k : ℕ) : Describes (em >>> k) (x / 2 ^ k) := by
  induction k with
  | zero =>
    rw [pow_zero, div_one]
    exact h
  | succ k ih =>
    rw [pow_succ, ← div_div]
    exact ih.shiftRightOne

/-- Rounding moves a number by half a unit at most. -/
theorem abs_roundedMantissa_sub_le (h : Describes em x) :
    |(em.roundedMantissa : ℚ) - x| ≤ 1 / 2 := by
  obtain ⟨m, r, s⟩ := em
  rw [abs_le]
  cases r <;> cases s <;> simp only [Describes, Residue] at h
  · show -(1 / 2) ≤ (m : ℚ) - x ∧ (m : ℚ) - x ≤ 1 / 2
    constructor <;> linarith
  · show -(1 / 2) ≤ (m : ℚ) - x ∧ (m : ℚ) - x ≤ 1 / 2
    constructor <;> linarith
  -- halfway, the even neighbour is taken
  · show -(1 / 2) ≤ ((m + m % 2 : ℕ) : ℚ) - x ∧ ((m + m % 2 : ℕ) : ℚ) - x ≤ 1 / 2
    rcases Nat.mod_two_eq_zero_or_one m with hbit | hbit
    all_goals
      rw [hbit]
      push_cast
      constructor <;> linarith
  · show -(1 / 2) ≤ ((m + 1 : ℕ) : ℚ) - x ∧ ((m + 1 : ℕ) : ℚ) - x ≤ 1 / 2
    push_cast
    constructor <;> linarith

end Describes

/-! ## 2. The nearest whole number -/

/-- The nearest whole number, and halfway between two the even one. -/
structure NearestInt (y : ℚ) (n : ℤ) : Prop where
  near : |n - y| ≤ 1 / 2
  even : |n - y| = 1 / 2 → Even n

namespace NearestInt

variable {y z : ℚ} {n k : ℤ}

theorem mono (hn : NearestInt y n) (hk : NearestInt z k) (h : y ≤ z) : n ≤ k := by
  by_contra hlt
  have hstep : (k : ℚ) + 1 ≤ n := by exact_mod_cast Int.not_le.mp hlt
  have hbelow := (abs_le.mp hn.near).2
  have habove := (abs_le.mp hk.near).1
  -- both numbers are halfway between the two whole ones, of which only one is even
  have hnext : n = k + 1 := by
    have : (n : ℚ) = k + 1 := by linarith
    exact_mod_cast this
  have hn' : Even n := hn.even (by rw [abs_of_nonneg] <;> linarith)
  have hk' : Even k := hk.even (by rw [abs_of_nonpos] <;> linarith)
  rw [hnext, Int.even_add_one] at hn'
  exact hn' hk'

theorem eq (hn : NearestInt y n) (hk : NearestInt y k) : n = k :=
  le_antisymm (hn.mono hk le_rfl) (hk.mono hn le_rfl)

theorem of_int (n : ℤ) : NearestInt n n where
  near := by rw [sub_self, abs_zero]; norm_num
  even h := by rw [sub_self, abs_zero] at h; norm_num at h

theorem neg (hn : NearestInt y n) : NearestInt (-y) (-n) := by
  have hsame : |((-n : ℤ) : ℚ) - -y| = |n - y| := by
    rw [Int.cast_neg, neg_sub_neg, abs_sub_comm]
  exact ⟨hsame ▸ hn.near, fun h => (hn.even (hsame ▸ h)).neg⟩

/-- Whole bounds are kept. -/
theorem int_le (hn : NearestInt y n) (h : (k : ℚ) ≤ y) : k ≤ n :=
  (of_int k).mono hn h

theorem le_int (hn : NearestInt y n) (h : y ≤ k) : n ≤ k :=
  hn.mono (of_int k) h

end NearestInt

theorem Describes.nearestInt {em : ExtendedMantissa} {x : ℚ} (h : Describes em x) :
    NearestInt x em.roundedMantissa where
  near := by
    rw [Int.cast_natCast]
    exact h.abs_roundedMantissa_sub_le
  even hhalf := by
    rw [Int.cast_natCast] at hhalf
    obtain ⟨m, r, s⟩ := em
    -- only with the round bit alone the rest is a half
    cases r <;> cases s <;> simp only [Describes, Residue] at h
    · rw [show ((⟨m, false, false⟩ : ExtendedMantissa).roundedMantissa : ℚ) = m from rfl] at hhalf
      rw [abs_sub_comm, h, abs_zero] at hhalf
      norm_num at hhalf
    · rw [show ((⟨m, false, true⟩ : ExtendedMantissa).roundedMantissa : ℚ) = m from rfl] at hhalf
      rw [abs_sub_comm, abs_of_pos h.1] at hhalf
      linarith
    · show Even ((m + m % 2 : ℕ) : ℤ)
      rw [Int.even_coe_nat, Nat.even_iff]
      omega
    · rw [show ((⟨m, true, true⟩ : ExtendedMantissa).roundedMantissa : ℚ) = m + 1 by
        exact_mod_cast rfl] at hhalf
      rw [abs_of_pos (by linarith)] at hhalf
      linarith

/-! ## 3. The last place -/

def signed (s : Sign) (q : ℚ) : ℚ :=
  match s with
  | .negative => -q
  | .positive => q

theorem abs_signed (s : Sign) (q : ℚ) : |signed s q| = |q| := by
  cases s
  · exact abs_neg q
  · rfl

/-- The 53rd place of a number, or the last place of the format where that comes first. -/
structure LastPlace (v : ℚ) (T : ℤ) : Prop where
  least : -1074 ≤ T
  lt : |v| < 2 ^ (53 + T)
  full : T = -1074 ∨ 2 ^ (52 + T) ≤ |v|

/-- What a number is rounded to when no exponent is too large. -/
def Nearest (v w : ℚ) : Prop :=
  ∃ (T : ℤ) (n : ℤ), LastPlace v T ∧ NearestInt (v / 2 ^ T) n ∧ w = n * 2 ^ T

theorem LastPlace.mono {v w : ℚ} {S T : ℤ} (hS : LastPlace v S) (hT : LastPlace w T)
    (h : |v| ≤ |w|) : S ≤ T := by
  have hleast := hT.least
  rcases hS.full with hS' | hfull
  · omega
  · have hlt : (2 : ℚ) ^ (52 + S) < 2 ^ (53 + T) := (hfull.trans h).trans_lt hT.lt
    have := (zpow_lt_zpow_iff_right₀ (by norm_num)).mp hlt
    omega

/-- In units of its last place a number takes 53 places at most. -/
theorem LastPlace.nearestInt_le {v : ℚ} {T n : ℤ} (hT : LastPlace v T) (hpos : 0 ≤ v)
    (hn : NearestInt (v / 2 ^ T) n) : n ≤ 2 ^ 53 := by
  have hlt := hT.lt
  rw [abs_of_nonneg hpos, zpow_add₀ (by norm_num)] at hlt
  apply hn.le_int
  rw [div_le_iff₀ (by positivity)]
  push_cast
  exact_mod_cast hlt.le

/-- It takes 53 places indeed, unless its last place is that of the format. -/
theorem LastPlace.le_nearestInt {v : ℚ} {T n : ℤ} (hT : LastPlace v T) (hpos : 0 ≤ v)
    (hn : NearestInt (v / 2 ^ T) n) : T = -1074 ∨ 2 ^ 52 ≤ n := by
  refine hT.full.imp_right fun hfull => ?_
  rw [abs_of_nonneg hpos, zpow_add₀ (by norm_num)] at hfull
  apply hn.int_le
  rw [le_div_iff₀ (by positivity)]
  push_cast
  exact_mod_cast hfull

namespace Nearest

variable {v w v' w' : ℚ}

/-- Rounding keeps numbers in order. -/
theorem mono (hv : Nearest v v') (hw : Nearest w w') (hpos : 0 ≤ v) (h : v ≤ w) : v' ≤ w' := by
  obtain ⟨S, n, hS, hn, rfl⟩ := hv
  obtain ⟨T, k, hT, hk, rfl⟩ := hw
  have habs : |v| ≤ |w| := by rwa [abs_of_nonneg hpos, abs_of_nonneg (hpos.trans h)]
  rcases (hS.mono hT habs).eq_or_lt with rfl | hlt
  -- with the same last place the multiples are in order
  · have hle : (n : ℚ) ≤ k := by
      exact_mod_cast hn.mono hk (by gcongr)
    gcongr
  -- a power of two stands between numbers with different last places
  · have hleast := hS.least
    have hbelow := hS.nearestInt_le hpos hn
    have habove := (hT.le_nearestInt (hpos.trans h) hk).resolve_left (by omega)
    have hbelow' : (n : ℚ) ≤ 2 ^ 53 := by exact_mod_cast hbelow
    have habove' : (2 : ℚ) ^ 52 ≤ k := by exact_mod_cast habove
    calc (n : ℚ) * 2 ^ S ≤ 2 ^ 53 * 2 ^ S := by gcongr
      _ = 2 ^ 52 * 2 ^ (S + 1) := by rw [zpow_add_one₀ (by norm_num)]; ring
      _ ≤ 2 ^ 52 * 2 ^ T := by
        gcongr
        · norm_num
        · omega
      _ ≤ k * 2 ^ T := by gcongr

theorem zero : Nearest 0 0 :=
  ⟨-1074, 0, ⟨le_rfl, by rw [abs_zero]; positivity, .inl rfl⟩,
    by rw [zero_div]; exact NearestInt.of_int 0, by rw [Int.cast_zero, zero_mul]⟩

theorem unique (hw : Nearest v w) (hw' : Nearest v w') (hpos : 0 ≤ v) : w = w' :=
  le_antisymm (hw.mono hw' hpos le_rfl) (hw'.mono hw hpos le_rfl)

theorem eq_zero (h : Nearest 0 w) : w = 0 :=
  h.unique zero le_rfl

theorem neg (h : Nearest v w) : Nearest (-v) (-w) := by
  obtain ⟨T, n, hT, hn, rfl⟩ := h
  refine ⟨T, -n, ⟨hT.least, by rw [abs_neg]; exact hT.lt, by rw [abs_neg]; exact hT.full⟩, ?_, ?_⟩
  · rw [neg_div]
    exact hn.neg
  · rw [Int.cast_neg, neg_mul]

protected theorem abs (h : Nearest v w) : Nearest |v| |w| := by
  rcases le_total 0 v with hv | hv
  · rwa [abs_of_nonneg hv, abs_of_nonneg (zero.mono h le_rfl hv)]
  · have hw := zero.mono h.neg le_rfl (neg_nonneg.mpr hv)
    rw [abs_of_nonpos hv, abs_of_nonpos (neg_nonneg.mp hw)]
    exact h.neg

theorem signed (h : Nearest v w) (s : Sign) : Nearest (signed s v) (signed s w) := by
  cases s
  · exact h.neg
  · exact h

/-- A number of 53 places, none of them behind the last one, is kept. -/
theorem eq_of_short (h : Nearest v w) {n : ℕ} {f : ℤ} (hn : n < 2 ^ 53) (hf : -1074 ≤ f)
    (hv : |v| = n * 2 ^ f) : w = v := by
  obtain ⟨T, k, hT, hk, rfl⟩ := h
  have hpos : (0 : ℚ) < 2 ^ T := by positivity
  have hTf : T ≤ f := by
    rcases hT.full with hT' | hfull
    · omega
    · have hlt : (2 : ℚ) ^ (52 + T) < 2 ^ (53 + f) := by
        calc (2 : ℚ) ^ (52 + T) ≤ n * 2 ^ f := hv ▸ hfull
          _ < 2 ^ 53 * 2 ^ f := by gcongr; exact_mod_cast hn
          _ = 2 ^ (53 + f) := by rw [zpow_add₀ (by norm_num)]; norm_num
      have := (zpow_lt_zpow_iff_right₀ (by norm_num)).mp hlt
      omega
  -- the number is a multiple of its last place
  obtain ⟨i, hi⟩ : ∃ i : ℤ, v / 2 ^ T = i := by
    have habs : |v| / 2 ^ T = (n * 2 ^ (f - T).toNat : ℕ) := by
      rw [hv, mul_div_assoc, ← zpow_sub₀ (by norm_num)]
      push_cast
      rw [← zpow_natCast, Int.toNat_of_nonneg (by omega)]
    rcases abs_choice v with h | h
    · exact ⟨(n * 2 ^ (f - T).toNat : ℕ), by rw [← h, habs, Int.cast_natCast]⟩
    · refine ⟨-(n * 2 ^ (f - T).toNat : ℕ), ?_⟩
      rw [← neg_neg v, ← h, neg_div, habs, Int.cast_neg, Int.cast_natCast]
  have hki : k = i := (hi ▸ hk).eq (NearestInt.of_int i)
  rw [hki, ← hi, div_mul_cancel₀ _ hpos.ne']

/-- A number moves by half a unit of its last place at most. -/
theorem exists_abs_sub_le (h : Nearest v w) : ∃ T, LastPlace v T ∧ |w - v| ≤ 2 ^ T / 2 := by
  obtain ⟨T, n, hT, hn, rfl⟩ := h
  have hpos : (0 : ℚ) < 2 ^ T := by positivity
  have hmove : (n : ℚ) * 2 ^ T - v = (n - v / 2 ^ T) * 2 ^ T := by
    rw [sub_mul, div_mul_cancel₀ _ hpos.ne']
  refine ⟨T, hT, ?_⟩
  calc |(n : ℚ) * 2 ^ T - v| = |n - v / 2 ^ T| * 2 ^ T := by rw [hmove, abs_mul, abs_of_pos hpos]
    _ ≤ 1 / 2 * 2 ^ T := by gcongr; exact hn.near
    _ = 2 ^ T / 2 := by ring

/-- Where 53 places are left, a number moves by half a unit of the last one at most. -/
theorem near (h : Nearest v w) (hv : 2 ^ (-1022 : ℤ) ≤ |v|) : |w - v| ≤ |v| / 2 ^ 53 := by
  obtain ⟨T, hT, hmove⟩ := h.exists_abs_sub_le
  have hfull : (2 : ℚ) ^ (52 + T) ≤ |v| := by
    rcases hT.full with rfl | hfull
    · exact hv
    · exact hfull
  calc |w - v| ≤ 2 ^ T / 2 := hmove
    _ = 2 ^ (52 + T) / 2 ^ 53 := by rw [zpow_add₀ (by norm_num)]; norm_num; ring
    _ ≤ |v| / 2 ^ 53 := by gcongr

end Nearest

/-! ## 4. Rounding to a mantissa -/

/-- A mantissa of full width, or of any width at the least exponent. -/
structure Wide (m : ℕ) (e : ℤ) : Prop where
  lt : m < 2 ^ 53
  least : -1074 ≤ e
  full : 2 ^ 52 ≤ m ∨ e = -1074

/-- The number that an unpacked double stands for, however large it is. -/
inductive Reads : UnpackedFloat → ℚ → Prop
  | zero (s : Sign) : Reads (.zero s) 0
  | finite (s : Sign) {m : ℕ} {e : ℤ} (hm : 0 < m) (h : Wide m e) :
      Reads (.finite s m e hm) (signed s (m * (2 : ℚ) ^ e))

section

variable {m : ℕ} {e : ℤ} {acc : Accuracy}

theorem mantissa_ofMantissaAndAccuracy (m : ℕ) (acc : Accuracy) :
    (ExtendedMantissa.ofMantissaAndAccuracy m acc).mantissa = m := by
  unfold ExtendedMantissa.ofMantissaAndAccuracy
  split <;> rfl

theorem targetExponent_eq (m : ℕ) (e : ℤ) :
    Format.binary64.targetExponent (totalExponent m e) = max (m.log2 + e - 52) (-1074) := by
  show max ((m.log2 : ℤ) + 1 + e - 53) (-1074) = _
  omega

theorem shiftToTargetExponent_of_le (acc : Accuracy) {T : ℤ}
    (hT : Format.binary64.targetExponent (totalExponent m e) = T) (h : e ≤ T) :
    shiftToTargetExponent .binary64 m e acc =
      (ExtendedMantissa.ofMantissaAndAccuracy m acc >>> (T - e).toNat, T) := by
  unfold shiftToTargetExponent shiftToExponent
  simp only [hT]
  rw [Int.toNat_of_nonneg (by omega), add_sub_cancel]

/-- A mantissa of at most 53 places stays as it is, and one that has grown by a place loses it
again. -/
theorem exists_wide_shift {n : ℕ} {T : ℤ} (hge : n ≤ 2 ^ 53) (hleast : -1074 ≤ T)
    (hfull : 2 ^ 52 ≤ n ∨ T = -1074) :
    ∃ m' e', shiftToTargetExponent .binary64 n T .exact = (⟨m', false, false⟩, e') ∧
      Wide m' e' ∧ (m' : ℚ) * 2 ^ e' = n * 2 ^ T := by
  by_cases hlt : n < 2 ^ 53
  · have hlog : n.log2 ≤ 52 := by
      by_cases hzero : n = 0
      · rw [hzero, Nat.log2_zero]
        omega
      · have := (Nat.log2_lt hzero).mpr hlt
        omega
    have htarget : (Format.binary64.targetExponent (totalExponent n T) - T).toNat = 0 := by
      rw [targetExponent_eq]
      omega
    refine ⟨n, T, ?_, ⟨hlt, hleast, hfull⟩, rfl⟩
    unfold shiftToTargetExponent shiftToExponent
    simp only [htarget]
    rw [Nat.cast_zero, add_zero]
    rfl
  · obtain rfl : n = 2 ^ 53 := by omega
    have htarget : Format.binary64.targetExponent (totalExponent (2 ^ 53) T) = T + 1 := by
      rw [targetExponent_eq, Nat.log2_two_pow]
      omega
    refine ⟨2 ^ 52, T + 1, ?_, ⟨by decide, by omega, .inl le_rfl⟩, ?_⟩
    · rw [shiftToTargetExponent_of_le .exact htarget (by omega), add_sub_cancel_left]
      rfl
    · rw [zpow_add_one₀ (by norm_num)]
      push_cast
      ring

/-- The exponent that a result is shifted to is that of its last place. -/
theorem lastPlace_targetExponent {x : ℚ} (hm : 2 ^ 52 ≤ m ∨ e ≤ -1074)
    (hx : Describes (.ofMantissaAndAccuracy m acc) x) (hpos : 0 ≤ x) :
    LastPlace (x * 2 ^ e) (max (m.log2 + e - 52) (-1074)) where
  least := le_max_right _ _
  lt := by
    have hlt := hx.lt_mantissa_add_one
    rw [mantissa_ofMantissaAndAccuracy] at hlt
    have hlog : (m : ℚ) + 1 ≤ 2 ^ (m.log2 + 1) := by exact_mod_cast Nat.lt_log2_self (n := m)
    rw [abs_of_nonneg (by positivity)]
    calc x * 2 ^ e < 2 ^ (m.log2 + 1) * 2 ^ e := by gcongr; exact hlt.trans_le hlog
      _ = 2 ^ ((m.log2 + 1 : ℕ) + e) := by rw [zpow_add₀ (by norm_num), zpow_natCast]
      _ ≤ 2 ^ (53 + max (m.log2 + e - 52) (-1074)) := by
        apply zpow_le_zpow_right₀ (by norm_num)
        push_cast
        omega
  full := by
    by_cases hleast : m.log2 + e - 52 ≤ -1074
    · exact .inl (max_eq_right hleast)
    · right
      -- at such an exponent the mantissa is not zero
      have hne : m ≠ 0 := by
        rintro rfl
        rw [Nat.log2_zero] at hleast
        omega
      have hle := hx.mantissa_le
      rw [mantissa_ofMantissaAndAccuracy] at hle
      have hlog : (2 : ℚ) ^ m.log2 ≤ m := by exact_mod_cast Nat.log2_self_le hne
      rw [max_eq_left (by omega), abs_of_nonneg (by positivity)]
      calc (2 : ℚ) ^ (52 + (m.log2 + e - 52)) = 2 ^ m.log2 * 2 ^ e := by
            rw [← zpow_natCast, ← zpow_add₀ (by norm_num)]
            congr 1
            omega
        _ ≤ x * 2 ^ e := by gcongr; exact hlog.trans hle

/-- A result with a mantissa that is wide enough is rounded to the nearest double. -/
theorem exists_nearest_roundWithAccuracy (s : Sign) {x v : ℚ} (hm : 2 ^ 52 ≤ m ∨ e ≤ -1074)
    (hx : Describes (.ofMantissaAndAccuracy m acc) x) (hpos : 0 ≤ x) (hv : v = x * 2 ^ e) :
    ∃ w, Reads (roundWithAccuracy .binary64 s m e acc) (signed s w) ∧ Nearest v w := by
  have hplace := lastPlace_targetExponent hm hx hpos
  have htarget := targetExponent_eq m e
  generalize hT : max (m.log2 + e - 52) (-1074) = T at hplace htarget
  have heT : e ≤ T := by
    rcases hm with hm | hm
    · have hlog : 52 ≤ m.log2 := (Nat.le_log2 (by omega)).mpr hm
      omega
    · omega
  -- the places behind the last one are shifted out of the mantissa
  have hfirst := shiftToTargetExponent_of_le acc htarget heT
  have hshifted := hx.shiftRight (T - e).toNat
  have hvalue : v / 2 ^ T = x / 2 ^ (T - e).toNat := by
    rw [hv, mul_div_assoc, ← zpow_sub₀ (by norm_num), ← neg_sub, zpow_neg, ← zpow_natCast,
      Int.toNat_of_nonneg (by omega), div_eq_mul_inv]
  rw [← hv] at hplace
  have hv0 : 0 ≤ v := hv ▸ by positivity
  rw [← hvalue] at hshifted
  generalize ExtendedMantissa.ofMantissaAndAccuracy m acc >>> (T - e).toNat = em at hfirst hshifted
  have hnearest := hshifted.nearestInt
  -- rounding may add a place, which the second shift takes away again
  have hge : em.roundedMantissa ≤ 2 ^ 53 := by
    exact_mod_cast hplace.nearestInt_le hv0 hnearest
  have hfull : 2 ^ 52 ≤ em.roundedMantissa ∨ T = -1074 := by
    rw [or_comm]
    exact_mod_cast hplace.le_nearestInt hv0 hnearest
  obtain ⟨m', e', hsecond, hwide, hsame⟩ := exists_wide_shift hge hplace.least hfull
  refine ⟨em.roundedMantissa * 2 ^ T, ?_, T, em.roundedMantissa, hplace, hnearest, by
    rw [Int.cast_natCast]⟩
  rw [← hsame]
  unfold roundWithAccuracy
  simp only [hfirst, hsecond]
  by_cases hzero : m' = 0
  · rw [dif_pos hzero, hzero, Nat.cast_zero, zero_mul]
    cases s
    · rw [show signed .negative 0 = 0 from neg_zero]
      exact .zero _
    · exact .zero _
  · rw [dif_neg hzero]
    exact .finite s _ hwide

end

end TextScore.Decimal

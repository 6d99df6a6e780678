import Mathlib
import TextScore.Proofs.Decimal.Line

/-!
# Arithmetic — doubles as rational numbers

A double of moderate size denotes a rational number.  Each operation on doubles rounds the result of
the same operation on the numbers they denote, and comparing doubles is comparing these numbers.
Far from both ends of the format there is neither overflow nor a loss of places, so a result is off
by a fixed part of it at most, and is exact if it fits.
-/

namespace TextScore.Decimal

open Float.Model Float.Model.UnpackedFloat

/-! ## 1. Numbers of moderate size -/

/-- Far from both ends of the format. -/
def Moderate (v : ℚ) : Prop :=
  (2 : ℚ) ^ (-1000 : ℤ) ≤ |v| ∧ |v| < (2 : ℚ) ^ (1000 : ℤ)

/-- The number fits a mantissa. -/
def Short (v : ℚ) : Prop :=
  ∃ (n : ℕ) (f : ℤ), n < 2 ^ 53 ∧ |v| = n * (2 : ℚ) ^ f

/-- What a number may be rounded to: a number that fits is kept, and any other moves by half a unit
of the last place at most. -/
structure Rounds (v r : ℚ) : Prop where
  exact : Short v → r = v
  near : |r - v| ≤ |v| / 2 ^ 53

/-- Nothing, or far from both ends of the format. -/
def Within (v : ℚ) : Prop :=
  v = 0 ∨ Moderate v

/-- Nothing, or a number with 53 places that is not too large. -/
def Regular (q : ℚ) : Prop :=
  q = 0 ∨ 2 ^ (-1022 : ℤ) ≤ |q| ∧ |q| < limit

theorem Nearest.rounds {v w : ℚ} (h : Nearest v w) (hv : Within v) : Rounds v w := by
  rcases hv with rfl | hv
  · obtain rfl : w = 0 := h.eq_zero
    exact ⟨fun _ => rfl, by norm_num⟩
  · refine ⟨fun hshort => ?_, h.near ?_⟩
    -- a number of moderate size has no place behind the last one of the format
    · obtain ⟨n, f, hn, hvalue⟩ := hshort
      refine h.eq_of_short hn ?_ hvalue
      have hlt : (2 : ℚ) ^ (-1000 : ℤ) < 2 ^ (53 + f) := by
        calc (2 : ℚ) ^ (-1000 : ℤ) ≤ n * 2 ^ f := hvalue ▸ hv.1
          _ < 2 ^ 53 * 2 ^ f := by gcongr; exact_mod_cast hn
          _ = 2 ^ (53 + f) := by rw [zpow_add₀ (by norm_num)]; norm_num
      have := (zpow_lt_zpow_iff_right₀ (by norm_num)).mp hlt
      omega
    · exact (zpow_le_zpow_right₀ (by norm_num) (by norm_num)).trans hv.1

/-- Rounding does not take a number of moderate size to an end of the format. -/
theorem Rounds.regular {v w : ℚ} (h : Rounds v w) (hv : Within v) : Regular w := by
  rcases hv with rfl | ⟨hlow, hhigh⟩
  · left
    have hnear := h.near
    rw [abs_zero, zero_div, sub_zero] at hnear
    exact abs_nonpos_iff.mp hnear
  · right
    have hnear := h.near
    have hpos := abs_nonneg v
    have hbelow : |v| - |w| ≤ |w - v| := by
      rw [abs_sub_comm]
      exact abs_sub_abs_le_abs_sub v w
    have habove : |w| - |v| ≤ |w - v| := abs_sub_abs_le_abs_sub w v
    have hpart : |v| / 2 ^ 53 ≤ |v| / 2 := by
      gcongr
      norm_num
    constructor
    · calc (2 : ℚ) ^ (-1022 : ℤ) ≤ 2 ^ (-1001 : ℤ) :=
            zpow_le_zpow_right₀ (by norm_num) (by norm_num)
        _ = 2 ^ (-1000 : ℤ) / 2 := by
            rw [show (-1000 : ℤ) = -1001 + 1 from rfl, zpow_add_one₀ (by norm_num)]
            ring
        _ ≤ |w| := by linarith
    · calc |w| ≤ 2 * |v| := by linarith
        _ < 2 * 2 ^ (1000 : ℤ) := by linarith
        _ = 2 ^ (1001 : ℤ) := by
            rw [show (1001 : ℤ) = 1000 + 1 from rfl, zpow_add_one₀ (by norm_num)]
            ring
        _ ≤ limit := zpow_le_zpow_right₀ (by norm_num) (by norm_num)

/-! ## 2. Unpacked doubles of regular size -/

/-- A mantissa of full width, and an exponent within the format. -/
structure Normal (m : ℕ) (e : ℤ) : Prop where
  le : 2 ^ 52 ≤ m
  lt : m < 2 ^ 53
  least : -1074 ≤ e
  greatest : e ≤ 971

theorem Normal.pos {m : ℕ} {e : ℤ} (h : Normal m e) : 0 < m :=
  Nat.lt_of_lt_of_le (by decide) h.le

/-- The number that an unpacked double stands for, if it is zero or of moderate size. -/
inductive Holds : UnpackedFloat → ℚ → Prop
  | zero (s : Sign) : Holds (.zero s) 0
  | finite (s : Sign) {m : ℕ} {e : ℤ} (hm : 0 < m) (h : Normal m e) :
      Holds (.finite s m e hm) (signed s (m * (2 : ℚ) ^ e))

section

variable {u : UnpackedFloat} {q : ℚ} {m : ℕ} {e : ℤ}

theorem Normal.wide (h : Normal m e) : Wide m e :=
  ⟨h.lt, h.least, .inl h.le⟩

/-- The mantissa of a regular number is full. -/
theorem Wide.normal (h : Wide m e) (hlow : 2 ^ (-1022 : ℤ) ≤ (m : ℚ) * 2 ^ e)
    (hhigh : (m : ℚ) * 2 ^ e < limit) : Normal m e where
  le := by
    by_contra hlt
    have he := h.full.resolve_left hlt
    have hm : (m : ℚ) < 2 ^ (52 : ℤ) := by exact_mod_cast not_le.mp hlt
    have : (m : ℚ) * 2 ^ e < 2 ^ (-1022 : ℤ) := by
      calc (m : ℚ) * 2 ^ e < 2 ^ (52 : ℤ) * 2 ^ e := by gcongr
        _ = 2 ^ (-1022 : ℤ) := by
          rw [he, ← zpow_add₀ (by norm_num)]
          rfl
    linarith
  lt := h.lt
  least := h.least
  greatest := h.lt_iff.mp hhigh

theorem holds_iff : Holds u q ↔ Reads u q ∧ Regular q := by
  constructor
  · intro h
    cases h with
    | zero s => exact ⟨.zero s, .inl rfl⟩
    | @finite s m e hm hn =>
      have hle : (2 : ℚ) ^ (52 : ℤ) ≤ m := by exact_mod_cast hn.le
      have hleast := hn.least
      refine ⟨.finite s hm hn.wide, .inr ?_⟩
      rw [abs_signed, abs_of_nonneg (by positivity)]
      refine ⟨?_, hn.wide.lt_iff.mpr hn.greatest⟩
      calc (2 : ℚ) ^ (-1022 : ℤ) ≤ 2 ^ (52 + e) :=
            zpow_le_zpow_right₀ (by norm_num) (by omega)
        _ = 2 ^ (52 : ℤ) * 2 ^ e := zpow_add₀ (by norm_num) _ _
        _ ≤ m * 2 ^ e := by gcongr
  · rintro ⟨h, hq⟩
    cases h with
    | zero s => exact .zero s
    | @finite s m e hm hw =>
      have hpos : (0 : ℚ) < m * 2 ^ e := by positivity
      rcases hq with hzero | hq
      · rw [← abs_eq_zero, abs_signed, abs_eq_zero] at hzero
        exact absurd hzero hpos.ne'
      · rw [abs_signed, abs_of_pos hpos] at hq
        exact .finite s hm (hw.normal hq.1 hq.2)

end

/-! ## 3. Doubles -/

/-- The double is zero or of moderate size, and this is the number it stands for. -/
def Denotes (x : Float) (q : ℚ) : Prop :=
  Holds x.toModel.unpack q

section

variable {x y z : Float} {p q v : ℚ}

theorem Denotes.reads (h : Denotes x q) : Reads x.toModel.unpack q :=
  (holds_iff.mp h).1

theorem Denotes.regular (h : Denotes x q) : Regular q :=
  (holds_iff.mp h).2

theorem Denotes.standsAt (h : Denotes x q) : StandsAt x q := by
  refine .number h.reads ?_
  rcases h.regular with rfl | hq
  · rw [abs_zero]
    exact limit_pos
  · exact hq.2

theorem StandsAt.denotes (h : StandsAt x q) (hq : Regular q) : Denotes x q := by
  refine holds_iff.mpr ⟨h.reads ?_, hq⟩
  rcases hq with rfl | hq
  · rw [abs_zero]
    exact limit_pos
  · exact hq.2

/-- What a regular result reads before it is packed, the packed result denotes. -/
theorem Reads.denotes {u : UnpackedFloat} (h : Reads u q) (hq : Regular q)
    (hz : z = .ofModel (.pack u)) : Denotes z q := by
  have hlt : |q| < limit := by
    rcases hq with rfl | hq
    · rw [abs_zero]
      exact limit_pos
    · exact hq.2
  have hplace := h.standsAt hz
  rw [clip_of_lt hlt] at hplace
  exact hplace.denotes hq

theorem exists_denotes {u : UnpackedFloat} (h : ∃ w, Reads u w ∧ Nearest v w) (hv : Within v)
    (hz : z = .ofModel (.pack u)) : ∃ r, Denotes z r ∧ Rounds v r := by
  obtain ⟨w, hw, hnearest⟩ := h
  have hrounds := hnearest.rounds hv
  exact ⟨w, hw.denotes (hrounds.regular hv) hz, hrounds⟩

theorem Denotes.exists_add (hx : Denotes x p) (hy : Denotes y q) (h : Within (p + q)) :
    ∃ r, Denotes (x + y) r ∧ Rounds (p + q) r :=
  exists_denotes (exists_nearest_add hx.reads hy.reads) h rfl

theorem Denotes.exists_sub (hx : Denotes x p) (hy : Denotes y q) (h : Within (p - q)) :
    ∃ r, Denotes (x - y) r ∧ Rounds (p - q) r :=
  exists_denotes (exists_nearest_sub hx.reads hy.reads) h rfl

theorem Denotes.exists_mul (hx : Denotes x p) (hy : Denotes y q) (h : Within (p * q)) :
    ∃ r, Denotes (x * y) r ∧ Rounds (p * q) r :=
  exists_denotes (exists_nearest_mul hx.reads hy.reads) h rfl

theorem Denotes.exists_div (hx : Denotes x p) (hy : Denotes y q) (hq : q ≠ 0)
    (h : Within (p / q)) : ∃ r, Denotes (x / y) r ∧ Rounds (p / q) r :=
  exists_denotes (exists_nearest_div hx.reads hy.reads hq) h rfl

theorem Denotes.neg (hx : Denotes x p) : Denotes (-x) (-p) := by
  refine hx.reads.neg.denotes ?_ rfl
  unfold Regular
  rw [neg_eq_zero, abs_neg]
  exact hx.regular

theorem Denotes.abs (hx : Denotes x p) : Denotes x.abs |p| := by
  refine hx.reads.abs.denotes ?_ rfl
  unfold Regular
  rw [abs_eq_zero, abs_abs]
  exact hx.regular

theorem Denotes.le_iff (hx : Denotes x p) (hy : Denotes y q) : x ≤ y ↔ p ≤ q :=
  hx.standsAt.le_iff hy.standsAt

theorem Denotes.lt_iff (hx : Denotes x p) (hy : Denotes y q) : x < y ↔ p < q :=
  hx.standsAt.lt_iff hy.standsAt

end

/-! ## 4. Results that fit -/

/-- A mantissa's worth of halves, quarters and so on. -/
def Fits (v : ℚ) : Prop :=
  ∃ n j : ℕ, n < 2 ^ 53 ∧ j ≤ 1000 ∧ v = n / 2 ^ j

theorem fits_natCast {n : ℕ} (hn : n < 2 ^ 53) : Fits n :=
  ⟨n, 0, hn, Nat.zero_le _, by rw [pow_zero, div_one]⟩

namespace Fits

variable {v : ℚ}

theorem short (h : Fits v) : Short v := by
  obtain ⟨n, j, hn, -, rfl⟩ := h
  refine ⟨n, -j, hn, ?_⟩
  rw [abs_of_nonneg (by positivity), zpow_neg, zpow_natCast, div_eq_mul_inv]

theorem within (h : Fits v) : Within v := by
  obtain ⟨n, j, hn, hj, rfl⟩ := h
  by_cases hzero : n = 0
  · left
    rw [hzero, Nat.cast_zero, zero_div]
  · right
    have hn' : (n : ℚ) < 2 ^ 53 := by exact_mod_cast hn
    have hone : (1 : ℚ) ≤ n := by exact_mod_cast Nat.pos_of_ne_zero hzero
    have hpow : (2 : ℚ) ^ j ≤ 2 ^ 1000 := pow_le_pow_right₀ (by norm_num) hj
    have hone' : (1 : ℚ) ≤ 2 ^ j := one_le_pow₀ (by norm_num)
    unfold Moderate
    rw [abs_of_nonneg (by positivity)]
    constructor
    · calc (2 : ℚ) ^ (-1000 : ℤ) = 1 / 2 ^ 1000 := by rw [zpow_neg, one_div]; rfl
        _ ≤ n / 2 ^ j := by gcongr
    · calc (n : ℚ) / 2 ^ j ≤ n / 1 := by gcongr
        _ = n := div_one _
        _ < 2 ^ 53 := hn'
        _ ≤ 2 ^ (1000 : ℤ) := by
          rw [← zpow_natCast]
          exact zpow_le_zpow_right₀ (by norm_num) (by norm_num)

end Fits

section

variable {x y : Float} {p q : ℚ}

theorem Denotes.add (hx : Denotes x p) (hy : Denotes y q) (h : Fits (p + q)) :
    Denotes (x + y) (p + q) := by
  obtain ⟨r, hr, hrounds⟩ := hx.exists_add hy h.within
  rwa [← hrounds.exact h.short]

theorem Denotes.mul (hx : Denotes x p) (hy : Denotes y q) (h : Fits (p * q)) :
    Denotes (x * y) (p * q) := by
  obtain ⟨r, hr, hrounds⟩ := hx.exists_mul hy h.within
  rwa [← hrounds.exact h.short]

theorem Denotes.div (hx : Denotes x p) (hy : Denotes y q) (hq : q ≠ 0) (h : Fits (p / q)) :
    Denotes (x / y) (p / q) := by
  obtain ⟨r, hr, hrounds⟩ := hx.exists_div hy hq h.within
  rwa [← hrounds.exact h.short]

theorem denotes_one : Denotes 1.0 1 := by
  have hone : (1 : ℚ) = signed .positive ((2 ^ 52 : ℕ) * (2 : ℚ) ^ (-52 : ℤ)) := by
    rw [signed_positive]
    norm_num
  rw [hone]
  exact .finite .positive (by decide) ⟨by decide, by decide, by decide, by decide⟩

theorem denotes_ofNat {n : ℕ} (hn : n < 2 ^ 53) : Denotes (Float.ofNat n) n := by
  have hsize : n.toUInt64.toNat = n := Nat.mod_eq_of_lt (hn.trans (by decide))
  have hfits : Fits (((n : ℤ) : ℚ) * 2 ^ (0 : ℤ)) := by
    rw [zpow_zero, mul_one]
    exact fits_natCast hn
  have hsame : UnpackedFloat.ofUInt64 .binary64 n.toUInt64 =
      normalize .binary64 (n : ℤ) 0 .positive := by
    show normalize .binary64 (n.toUInt64.toNat : ℤ) 0 .positive = _
    rw [hsize]
  have hconvert : Denotes n.toUInt64.toFloat n := by
    have hresult := hsame ▸ exists_nearest_normalize (n : ℤ) 0 .positive
    obtain ⟨r, hr, hrounds⟩ := exists_denotes hresult hfits.within rfl
    rwa [hrounds.exact hfits.short, zpow_zero, mul_one, Int.cast_natCast] at hr
  -- the conversion is one from a decimal, whose power of ten is one
  have hmul : Float.ofNat n = n.toUInt64.toFloat * 1.0 := by
    show Float.ofScientific n false 0 = _
    unfold Float.ofScientific
    rw [dif_pos ⟨hn, by decide⟩]
    rfl
  rw [hmul, ← mul_one (n : ℚ)]
  apply hconvert.mul denotes_one
  rw [mul_one]
  exact fits_natCast hn

end

end TextScore.Decimal

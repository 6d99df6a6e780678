import Mathlib
import TextScore.Proofs.Decimal.Rounding

/-!
# Operations — arithmetic on unpacked doubles

Each operation on unpacked doubles rounds the result of the same operation on the numbers that they
stand for, over the whole range of the format, subnormal numbers and signed zeros included.  Packing
a result keeps it unless its exponent is too large, and then an infinity is left; comparing unpacked
doubles is comparing the numbers.
-/

namespace TextScore.Decimal

open Float.Model Float.Model.UnpackedFloat

/-! ## 1. Signs -/

@[simp] theorem signed_negative (q : ℚ) : signed .negative q = -q := rfl

@[simp] theorem signed_positive (q : ℚ) : signed .positive q = q := rfl

theorem signed_mul (s t : Sign) (p q : ℚ) : signed s p * signed t q = signed (s * t) (p * q) := by
  cases s <;> cases t
  · exact neg_mul_neg p q
  · exact neg_mul p q
  · exact mul_neg p q
  · rfl

theorem signed_mul_right (s : Sign) (p q : ℚ) : signed s p * q = signed s (p * q) := by
  cases s
  · exact neg_mul p q
  · rfl

theorem signed_div (s t : Sign) (p q : ℚ) : signed s p / signed t q = signed (s / t) (p / q) := by
  cases s <;> cases t
  · exact neg_div_neg_eq p q
  · exact neg_div q p
  · exact div_neg p
  · rfl

theorem signed_neg (s : Sign) (q : ℚ) : signed (-s) q = -signed s q := by
  cases s
  · exact (neg_neg q).symm
  · rfl

theorem cast_apply (s : Sign) (n : ℕ) : ((s.apply n : ℤ) : ℚ) = signed s n := by
  cases s
  · show ((-(n : ℤ) : ℤ) : ℚ) = -(n : ℚ)
    push_cast
    rfl
  · rfl

/-! ## 2. Results before they are packed -/

section

variable {x y : UnpackedFloat} {p q : ℚ} {m : ℕ} {e : ℤ}

theorem exists_nearest_zero (s : Sign) {v : ℚ} (hv : v = 0) :
    ∃ w, Reads (.zero s) w ∧ Nearest v w := by
  rw [hv]
  exact ⟨0, .zero s, .zero⟩

theorem Wide.nearest (h : Wide m e) (s : Sign) :
    Nearest (signed s (m * 2 ^ e)) (signed s (m * 2 ^ e)) := by
  apply Nearest.signed
  have hvalue : (m : ℚ) * 2 ^ e / 2 ^ e = (m : ℤ) := by
    rw [mul_div_cancel_right₀ _ (by positivity), Int.cast_natCast]
  refine ⟨e, m, ⟨h.least, ?_, ?_⟩, hvalue ▸ NearestInt.of_int m, by rw [Int.cast_natCast]⟩
  · have hm : (m : ℚ) < 2 ^ 53 := by exact_mod_cast h.lt
    rw [abs_of_nonneg (by positivity), zpow_add₀ (by norm_num)]
    gcongr
    exact_mod_cast hm
  · rw [or_comm]
    refine h.full.imp_left fun hm => ?_
    have hm' : (2 : ℚ) ^ 52 ≤ m := by exact_mod_cast hm
    rw [abs_of_nonneg (by positivity), zpow_add₀ (by norm_num)]
    gcongr
    exact_mod_cast hm'

theorem nearest_two_zpow {k : ℤ} (hk : -1022 ≤ k) : Nearest ((2 : ℚ) ^ k) (2 ^ k) := by
  have hvalue : (2 : ℚ) ^ k = (2 ^ 52 : ℕ) * 2 ^ (k - 52) := by
    rw [Nat.cast_pow, Nat.cast_ofNat, ← zpow_natCast, ← zpow_add₀ (by norm_num)]
    congr 1
    push_cast
    ring
  rw [hvalue]
  exact Wide.nearest ⟨by decide, by omega, .inl le_rfl⟩ .positive

/-- A double that is rounded stays as it is. -/
theorem Reads.nearest (hx : Reads x p) : Nearest p p := by
  cases hx with
  | zero s => exact .zero
  | finite s hm h => exact h.nearest s

theorem describes_exact (m : ℕ) : Describes (.ofMantissaAndAccuracy m .exact) m := by
  show (m : ℚ) - m = 0
  exact sub_self _

theorem exists_nearest_mul (hx : Reads x p) (hy : Reads y q) :
    ∃ w, Reads (mul .binary64 x y) w ∧ Nearest (p * q) w := by
  cases hx with
  | zero s =>
    cases hy with
    | zero t => exact exists_nearest_zero (s * t) (zero_mul 0)
    | finite t => exact exists_nearest_zero (s * t) (zero_mul _)
  | @finite s m₁ e₁ hm₁ hw₁ =>
    cases hy with
    | zero t => exact exists_nearest_zero (s * t) (mul_zero _)
    | @finite t m₂ e₂ hm₂ hw₂ =>
      have hvalue : (m₁ : ℚ) * 2 ^ e₁ * (m₂ * 2 ^ e₂) = ((m₁ * m₂ : ℕ) : ℚ) * 2 ^ (e₁ + e₂) := by
        rw [zpow_add₀ (by norm_num)]
        push_cast
        ring
      -- one mantissa of full width is enough
      have hwide : 2 ^ 52 ≤ m₁ * m₂ ∨ e₁ + e₂ ≤ -1074 := by
        rcases hw₁.full with hfull | he₁
        · exact .inl (hfull.trans (Nat.le_mul_of_pos_right m₁ hm₂))
        · rcases hw₂.full with hfull | he₂
          · exact .inl (hfull.trans (Nat.le_mul_of_pos_left m₂ hm₁))
          · right
            omega
      obtain ⟨w, hw, hnearest⟩ := exists_nearest_roundWithAccuracy (s * t) hwide
        (describes_exact _) (Nat.cast_nonneg _) hvalue
      exact ⟨_, hw, signed_mul s t _ _ ▸ hnearest.signed (s * t)⟩

/-- A quotient with its remainder describes the fraction. -/
theorem describes_quotient (a : ℕ) {b : ℕ} (hb : 0 < b) :
    Describes (.ofMantissaAndAccuracy (a / b) (accuracyOfFraction (a % b) b)) ((a : ℚ) / b) := by
  have hb' : (0 : ℚ) < b := by exact_mod_cast hb
  have hrest : (a : ℚ) / b - (a / b : ℕ) = (a % b : ℕ) / b := by
    have hdiv : (b : ℚ) * (a / b : ℕ) + (a % b : ℕ) = a := by exact_mod_cast Nat.div_add_mod a b
    rw [eq_div_iff hb'.ne', sub_mul, div_mul_cancel₀ _ hb'.ne']
    linarith
  have hlt : ((a % b : ℕ) : ℚ) < b := by exact_mod_cast Nat.mod_lt a hb
  unfold accuracyOfFraction
  by_cases hzero : a % b = 0
  · rw [if_pos hzero]
    show (a : ℚ) / b - (a / b : ℕ) = 0
    rw [hrest, hzero, Nat.cast_zero, zero_div]
  · rw [if_neg hzero]
    have hpos : (0 : ℚ) < (a % b : ℕ) := by exact_mod_cast Nat.pos_of_ne_zero hzero
    -- twice the remainder is compared with the divisor
    rcases hcompare : compare (2 * (a % b)) b with - | - | -
    · have h : (2 * (a % b : ℕ) : ℚ) < b := by exact_mod_cast Nat.compare_eq_lt.mp hcompare
      show 0 < (a : ℚ) / b - (a / b : ℕ) ∧ (a : ℚ) / b - (a / b : ℕ) < 1 / 2
      rw [hrest, div_lt_iff₀ hb']
      exact ⟨div_pos hpos hb', by linarith⟩
    · have h : (2 * (a % b : ℕ) : ℚ) = b := by exact_mod_cast Nat.compare_eq_eq.mp hcompare
      show (a : ℚ) / b - (a / b : ℕ) = 1 / 2
      rw [hrest, div_eq_iff hb'.ne']
      linarith
    · have h : (b : ℚ) < 2 * (a % b : ℕ) := by exact_mod_cast Nat.compare_eq_gt.mp hcompare
      show 1 / 2 < (a : ℚ) / b - (a / b : ℕ) ∧ (a : ℚ) / b - (a / b : ℕ) < 1
      rw [hrest, lt_div_iff₀ hb', div_lt_iff₀ hb']
      constructor <;> linarith

/-- The dividend is shifted until the quotient is wide enough, whatever the widths of both. -/
theorem exists_divCore_eq {m₁ m₂ : ℕ} (e₁ e₂ : ℤ) (hm₁ : 0 < m₁) (hm₂ : 0 < m₂) :
    ∃ (k : ℕ) (T : ℤ), divCore .binary64 m₁ e₁ m₂ e₂ =
        (m₁ * 2 ^ k / m₂, T, accuracyOfFraction (m₁ * 2 ^ k % m₂) m₂) ∧
      T + k = e₁ - e₂ ∧ (2 ^ 52 ≤ m₁ * 2 ^ k / m₂ ∨ T ≤ -1074) := by
  have htarget : Format.binary64.targetExponent (totalExponent m₁ e₁ - totalExponent m₂ e₂) =
      max (m₁.log2 + e₁ - (m₂.log2 + e₂) - 53) (-1074) := by
    show max ((m₁.log2 : ℤ) + 1 + e₁ - (m₂.log2 + 1 + e₂) - 53) (-1074) = _
    omega
  obtain ⟨T, hT⟩ : ∃ T, min (e₁ - e₂) (max (m₁.log2 + e₁ - (m₂.log2 + e₂) - 53) (-1074)) = T :=
    ⟨_, rfl⟩
  refine ⟨(e₁ - e₂ - T).toNat, T, ?_, by omega, ?_⟩
  · unfold divCore
    simp only [htarget, hT, Nat.shiftLeft_eq]
  · by_cases hleast : T ≤ -1074
    · exact .inr hleast
    · left
      have hk : 53 + m₂.log2 ≤ m₁.log2 + (e₁ - e₂ - T).toNat := by omega
      rw [Nat.le_div_iff_mul_le hm₂]
      calc 2 ^ 52 * m₂ ≤ 2 ^ 52 * 2 ^ (m₂.log2 + 1) :=
            Nat.mul_le_mul_left _ Nat.lt_log2_self.le
        _ = 2 ^ (53 + m₂.log2) := by rw [← Nat.pow_add]; congr 1; omega
        _ ≤ 2 ^ (m₁.log2 + (e₁ - e₂ - T).toNat) := Nat.pow_le_pow_right (by decide) hk
        _ = 2 ^ m₁.log2 * 2 ^ (e₁ - e₂ - T).toNat := Nat.pow_add _ _ _
        _ ≤ m₁ * 2 ^ (e₁ - e₂ - T).toNat := Nat.mul_le_mul_right _ (Nat.log2_self_le hm₁.ne')

theorem exists_nearest_div (hx : Reads x p) (hy : Reads y q) (hq : q ≠ 0) :
    ∃ w, Reads (div .binary64 x y) w ∧ Nearest (p / q) w := by
  cases hy with
  | zero t => exact absurd rfl hq
  | @finite t m₂ e₂ hm₂ hw₂ =>
    cases hx with
    | zero s => exact exists_nearest_zero (s / t) (zero_div _)
    | @finite s m₁ e₁ hm₁ hw₁ =>
      obtain ⟨k, T, hcore, hT, hwide⟩ := exists_divCore_eq e₁ e₂ hm₁ hm₂
      have hvalue : (m₁ : ℚ) * 2 ^ e₁ / (m₂ * 2 ^ e₂) = ((m₁ * 2 ^ k : ℕ) : ℚ) / m₂ * 2 ^ T := by
        have he : (2 : ℚ) ^ e₁ = 2 ^ T * 2 ^ k * 2 ^ e₂ := by
          rw [← zpow_natCast, ← zpow_add₀ (by norm_num), ← zpow_add₀ (by norm_num)]
          congr 1
          omega
        rw [he]
        push_cast
        field_simp
      obtain ⟨w, hw, hnearest⟩ := exists_nearest_roundWithAccuracy (s / t) hwide
        (describes_quotient _ hm₂) (by positivity) hvalue
      unfold UnpackedFloat.div
      simp only [hcore]
      exact ⟨_, hw, signed_div s t _ _ ▸ hnearest.signed (s / t)⟩

/-- A mantissa that is not wide enough is first filled up with zeros. -/
theorem exists_nearest_round (s : Sign) (hm : 0 < m) :
    ∃ w, Reads (round .binary64 s m e) w ∧ Nearest (signed s (m * 2 ^ e)) w := by
  obtain ⟨k, hk⟩ : ∃ k, (e - max (m.log2 + e - 52) (-1074)).toNat = k := ⟨_, rfl⟩
  have hround : round .binary64 s m e =
      roundWithAccuracy .binary64 s (m * 2 ^ k) (e - k) .exact := by
    unfold UnpackedFloat.round decreaseExponent
    simp only [targetExponent_eq, hk, Nat.shiftLeft_eq]
  have hwide : 2 ^ 52 ≤ m * 2 ^ k ∨ e - k ≤ -1074 := by
    by_cases hleast : e - k ≤ -1074
    · exact .inr hleast
    · left
      calc 2 ^ 52 ≤ 2 ^ (m.log2 + k) := Nat.pow_le_pow_right (by decide) (by omega)
        _ = 2 ^ m.log2 * 2 ^ k := Nat.pow_add 2 m.log2 k
        _ ≤ m * 2 ^ k := Nat.mul_le_mul_right _ (Nat.log2_self_le hm.ne')
  have hvalue : (m : ℚ) * 2 ^ e = ((m * 2 ^ k : ℕ) : ℚ) * 2 ^ (e - k) := by
    rw [zpow_sub₀ (by norm_num), zpow_natCast]
    push_cast
    field_simp
  obtain ⟨w, hw, hnearest⟩ := exists_nearest_roundWithAccuracy s hwide
    (describes_exact _) (Nat.cast_nonneg _) hvalue
  rw [hround]
  exact ⟨_, hw, hnearest.signed s⟩

/-- A whole number is nothing, or a sign and a mantissa. -/
theorem normalize_cases (n : ℤ) (zeroSign : Sign) :
    (n = 0 ∧ normalize .binary64 n e zeroSign = .zero zeroSign) ∨
      ∃ (s : Sign) (k : ℕ), 0 < k ∧ (n : ℚ) = signed s k ∧
        normalize .binary64 n e zeroSign = round .binary64 s k e := by
  unfold UnpackedFloat.normalize
  rcases lt_trichotomy n 0 with hn | hn | hn
  · right
    rw [Int.compare_eq_lt.mpr hn]
    refine ⟨.negative, (-n).toNat, by omega, ?_, rfl⟩
    have hcast : n = -((-n).toNat : ℤ) := by omega
    show (n : ℚ) = -((-n).toNat : ℚ)
    exact_mod_cast hcast
  · left
    rw [hn, Int.compare_eq_eq.mpr rfl]
    exact ⟨rfl, rfl⟩
  · right
    rw [Int.compare_eq_gt.mpr hn]
    refine ⟨.positive, n.toNat, by omega, ?_, rfl⟩
    have hcast : n = (n.toNat : ℤ) := by omega
    show (n : ℚ) = (n.toNat : ℚ)
    exact_mod_cast hcast

theorem exists_nearest_normalize (n : ℤ) (e : ℤ) (zeroSign : Sign) :
    ∃ w, Reads (normalize .binary64 n e zeroSign) w ∧ Nearest (n * 2 ^ e) w := by
  rcases normalize_cases (e := e) n zeroSign with ⟨hn, hresult⟩ | ⟨s, k, hk, hn, hresult⟩
  · rw [hresult]
    exact exists_nearest_zero zeroSign (by rw [hn, Int.cast_zero, zero_mul])
  · rw [hn, signed_mul_right, hresult]
    exact exists_nearest_round s hk

/-- At a smaller exponent the mantissa has zeros at its end. -/
theorem decreaseExponent_value (s : Sign) {T : ℤ} (hT : T ≤ e) :
    ((s.apply (decreaseExponent m e T).1 : ℤ) : ℚ) * 2 ^ T = signed s (m * 2 ^ e) := by
  have hvalue : (((decreaseExponent m e T).1 : ℕ) : ℚ) * 2 ^ T = m * 2 ^ e := by
    show ((m <<< (e - T).toNat : ℕ) : ℚ) * 2 ^ T = m * 2 ^ e
    rw [Nat.shiftLeft_eq]
    push_cast
    rw [← zpow_natCast, Int.toNat_of_nonneg (by omega), mul_assoc, ← zpow_add₀ (by norm_num),
      sub_add_cancel]
  rw [cast_apply, signed_mul_right, hvalue]

theorem exists_nearest_add (hx : Reads x p) (hy : Reads y q) :
    ∃ w, Reads (add .binary64 x y) w ∧ Nearest (p + q) w := by
  cases hx with
  | zero s =>
    cases hy with
    | zero t =>
      show ∃ w, Reads (if s == t then .zero s else .zero .positive) w ∧ Nearest (0 + 0) w
      split
      · exact exists_nearest_zero s (add_zero 0)
      · exact exists_nearest_zero .positive (add_zero 0)
    | finite t hm hw =>
      rw [zero_add]
      exact ⟨_, .finite t hm hw, hw.nearest t⟩
  | @finite s m₁ e₁ hm₁ hw₁ =>
    cases hy with
    | zero t =>
      rw [add_zero]
      exact ⟨_, .finite s hm₁ hw₁, hw₁.nearest s⟩
    | @finite t m₂ e₂ hm₂ hw₂ =>
      -- both are brought to the smaller exponent
      have hvalue : signed s (m₁ * 2 ^ e₁) + signed t (m₂ * 2 ^ e₂) =
          ((s.apply (decreaseExponent m₁ e₁ (min e₁ e₂)).1 +
            t.apply (decreaseExponent m₂ e₂ (min e₁ e₂)).1 : ℤ) : ℚ) * 2 ^ min e₁ e₂ := by
        push_cast
        rw [add_mul, decreaseExponent_value s (min_le_left e₁ e₂),
          decreaseExponent_value t (min_le_right e₁ e₂)]
      rw [hvalue]
      exact exists_nearest_normalize _ _ .positive

theorem Reads.neg (hx : Reads x p) : Reads x.neg (-p) := by
  cases hx with
  | zero s =>
    rw [neg_zero]
    exact .zero (-s)
  | finite s hm hw =>
    rw [← signed_neg]
    exact .finite (-s) hm hw

theorem sub_eq_add_of_neg (x y : UnpackedFloat) :
    sub .binary64 x y = add .binary64 x y.neg := by
  cases x with
  | finite s m e hm =>
    cases y with
    | finite t m' e' hm' =>
      have hsub (n n' : ℕ) : s.apply n - t.apply n' = s.apply n + (-t).apply n' := by
        cases t
        · exact sub_neg_eq_add _ _
        · exact Int.sub_eq_add_neg
      show normalize _ (_ - _) _ _ = normalize _ (_ + _) _ _
      rw [hsub]
    | _ => rfl
  | _ => cases y <;> rfl

theorem exists_nearest_sub (hx : Reads x p) (hy : Reads y q) :
    ∃ w, Reads (sub .binary64 x y) w ∧ Nearest (p - q) w := by
  rw [sub_eq_add_neg, sub_eq_add_of_neg]
  exact exists_nearest_add hx hy.neg

theorem Reads.abs (hx : Reads x p) : Reads x.abs |p| := by
  cases hx with
  | zero s =>
    rw [abs_zero]
    exact .zero .positive
  | @finite s m e hm hw =>
    rw [abs_signed, abs_of_nonneg (by positivity)]
    exact .finite .positive hm hw

/-! ## 3. Comparing -/

/-- Exponents are compared first, since mantissas of full width differ by less than a place. -/
theorem compare_wide {m₁ m₂ : ℕ} {e₁ e₂ : ℤ} (hw₁ : Wide m₁ e₁) (hw₂ : Wide m₂ e₂) :
    (compare e₁ e₂).then (compare m₁ m₂) = compare ((m₁ : ℚ) * 2 ^ e₁) (m₂ * 2 ^ e₂) := by
  have hlt : ∀ {m n : ℕ} {e f : ℤ}, Wide m e → Wide n f → e < f →
      (m : ℚ) * 2 ^ e < n * 2 ^ f := by
    intro m n e f hm hn hef
    have hleast := hm.least
    have hm' : (m : ℚ) < 2 ^ 53 := by exact_mod_cast hm.lt
    have hn' : (2 : ℚ) ^ 52 ≤ n := by exact_mod_cast hn.full.resolve_right (by omega)
    calc (m : ℚ) * 2 ^ e < 2 ^ 53 * 2 ^ e := by gcongr
      _ = 2 ^ 52 * 2 ^ (e + 1) := by
        rw [zpow_add_one₀ (by norm_num)]
        ring
      _ ≤ 2 ^ 52 * 2 ^ f := by
        gcongr
        · norm_num
        · omega
      _ ≤ n * 2 ^ f := by gcongr
  rcases lt_trichotomy e₁ e₂ with he | he | he
  · rw [compare_lt_iff_lt.mpr he, compare_lt_iff_lt.mpr (hlt hw₁ hw₂ he)]
    rfl
  -- at one exponent the mantissas are compared
  · subst he
    rw [compare_eq_iff_eq.mpr rfl]
    show compare m₁ m₂ = _
    have hpos : (0 : ℚ) < 2 ^ e₁ := by positivity
    rcases lt_trichotomy m₁ m₂ with hm | hm | hm
    · have hm' : (m₁ : ℚ) < m₂ := by exact_mod_cast hm
      rw [compare_lt_iff_lt.mpr hm, compare_lt_iff_lt.mpr (by gcongr)]
    · rw [hm, compare_eq_iff_eq.mpr rfl, compare_eq_iff_eq.mpr rfl]
    · have hm' : (m₂ : ℚ) < m₁ := by exact_mod_cast hm
      rw [compare_gt_iff_gt.mpr hm, compare_gt_iff_gt.mpr (by gcongr)]
  · rw [compare_gt_iff_gt.mpr he, compare_gt_iff_gt.mpr (hlt hw₂ hw₁ he)]
    rfl

/-- Below zero the order is reversed. -/
theorem compare_neg_neg (p q : ℚ) : compare (-p) (-q) = (compare p q).swap := by
  rcases lt_trichotomy p q with h | h | h
  · rw [compare_lt_iff_lt.mpr h, compare_gt_iff_gt.mpr (neg_lt_neg h)]
    rfl
  · rw [h, compare_eq_iff_eq.mpr rfl, compare_eq_iff_eq.mpr rfl]
    rfl
  · rw [compare_gt_iff_gt.mpr h, compare_lt_iff_lt.mpr (neg_lt_neg h)]
    rfl

theorem compare_of_reads (hx : Reads x p) (hy : Reads y q) :
    x.compare y = some (compare p q) := by
  have hpos {m : ℕ} (e : ℤ) (hm : 0 < m) : (0 : ℚ) < m * 2 ^ e := by positivity
  cases hx with
  | zero s =>
    cases hy with
    | zero t =>
      rw [compare_eq_iff_eq.mpr rfl]
      cases s <;> cases t <;> rfl
    | @finite t m₂ e₂ hm₂ hw₂ =>
      have hlt := hpos e₂ hm₂
      cases t
      · rw [signed_negative, compare_gt_iff_gt.mpr (neg_lt_zero.mpr hlt)]
        rfl
      · rw [signed_positive, compare_lt_iff_lt.mpr hlt]
        rfl
  | @finite s m₁ e₁ hm₁ hw₁ =>
    have hlt := hpos e₁ hm₁
    cases hy with
    | zero t =>
      cases s
      · rw [signed_negative, compare_lt_iff_lt.mpr (neg_lt_zero.mpr hlt)]
        rfl
      · rw [signed_positive, compare_gt_iff_gt.mpr hlt]
        rfl
    | @finite t m₂ e₂ hm₂ hw₂ =>
      have hlt₂ := hpos e₂ hm₂
      cases s <;> cases t
      · show some ((compare e₁ e₂).then (compare m₁ m₂)).swap = _
        rw [signed_negative, signed_negative, compare_neg_neg, compare_wide hw₁ hw₂]
      · rw [signed_negative, signed_positive,
          compare_lt_iff_lt.mpr ((neg_lt_zero.mpr hlt).trans hlt₂)]
        rfl
      · rw [signed_negative, signed_positive,
          compare_gt_iff_gt.mpr ((neg_lt_zero.mpr hlt₂).trans hlt)]
        rfl
      · show some ((compare e₁ e₂).then (compare m₁ m₂)) = _
        rw [signed_positive, signed_positive, compare_wide hw₁ hw₂]

end

/-! ## 4. Packing -/

section

variable {s : Sign} {m b : ℕ} {e : ℤ}

theorem ofNat_ne {v : BitVec 11} (hb : b < 2048) (h : b ≠ v.toNat) : BitVec.ofNat 11 b ≠ v := by
  intro heq
  apply h
  rw [← heq, BitVec.toNat_ofNat, Nat.mod_eq_of_lt hb]

theorem log2_of_full (hle : 2 ^ 52 ≤ m) (hlt : m < 2 ^ 53) : m.log2 = 52 := by
  rw [Nat.log2_eq_iff (by omega)]
  exact ⟨hle, hlt⟩

/-- The greatest exponent is used just below the first power of two that is too large. -/
theorem Wide.lt_iff (h : Wide m e) : (m : ℚ) * 2 ^ e < 2 ^ (1024 : ℤ) ↔ e ≤ 971 := by
  constructor
  · intro hlt
    by_contra he
    have hm : (2 : ℚ) ^ (52 : ℤ) ≤ m := by exact_mod_cast h.full.resolve_right (by omega)
    have hle : (2 : ℚ) ^ (1024 : ℤ) ≤ m * 2 ^ e := by
      calc (2 : ℚ) ^ (1024 : ℤ) ≤ 2 ^ (52 + e) :=
            zpow_le_zpow_right₀ (by norm_num) (by omega)
        _ = 2 ^ (52 : ℤ) * 2 ^ e := zpow_add₀ (by norm_num) _ _
        _ ≤ m * 2 ^ e := by gcongr
    linarith
  · intro he
    have hm : (m : ℚ) < 2 ^ (53 : ℤ) := by exact_mod_cast h.lt
    calc (m : ℚ) * 2 ^ e < 2 ^ (53 : ℤ) * 2 ^ e := by gcongr
      _ = 2 ^ (53 + e) := (zpow_add₀ (by norm_num) _ _).symm
      _ ≤ 2 ^ (1024 : ℤ) := zpow_le_zpow_right₀ (by norm_num) (by omega)

/-- The first place of a full mantissa is not stored. -/
theorem unpack_packComponents_full (hm : 0 < m) (hle : 2 ^ 52 ≤ m) (hlt : m < 2 ^ 53) (hb : 0 < b)
    (hb' : b < 2047) :
    UnpackedFloat.unpack .binary64
        (packComponents .binary64 s (BitVec.ofNat 11 b) (BitVec.ofNat 52 m)) =
      .finite s m (b - 1075) hm := by
  have hones : BitVec.ofNat 11 b ≠ -1#11 := ofNat_ne (by omega) hb'.ne
  have hzero : BitVec.ofNat 11 b ≠ 0#11 := ofNat_ne (by omega) hb.ne'
  unfold UnpackedFloat.unpack
  simp only [unpackExponent_packComponents, unpackMantissa_packComponents,
    unpackSign_packComponents]
  rw [if_neg hones, if_neg hzero]
  congr
  · cases s <;> rfl
  · have hsplit : m = 2 ^ 52 * 1 + m % 2 ^ 52 := by omega
    rw [BitVec.toNat_append, BitVec.toNat_ofNat, BitVec.toNat_ofNat, Nat.shiftLeft_eq,
      Nat.mul_comm (1 % 2 ^ 1), ← Nat.two_pow_add_eq_or_of_lt (Nat.mod_lt m (by decide))]
    exact hsplit.symm
  · rw [BitVec.toNat_ofNat, Nat.mod_eq_of_lt (by omega)]

/-- A mantissa that is not full is stored as it is, at the least exponent. -/
theorem unpack_packComponents_least (hm : 0 < m) (hlt : m < 2 ^ 52) :
    UnpackedFloat.unpack .binary64 (packComponents .binary64 s 0#11 (BitVec.ofNat 52 m)) =
      .finite s m (-1074) hm := by
  have hmantissa : (BitVec.ofNat 52 m).toNat = m := by
    rw [BitVec.toNat_ofNat, Nat.mod_eq_of_lt hlt]
  have hne : BitVec.ofNat 52 m ≠ 0#52 := by
    intro hzero
    rw [hzero] at hmantissa
    exact hm.ne hmantissa
  have hones : (0#11 : BitVec 11) ≠ -1#11 := by decide
  unfold UnpackedFloat.unpack
  simp only [unpackExponent_packComponents, unpackMantissa_packComponents,
    unpackSign_packComponents]
  rw [if_neg hones, if_pos trivial, dif_neg hne]
  congr
  cases s <;> rfl

/-- A double is the same when it has been packed and unpacked. -/
theorem unpack_pack_finite {hm : 0 < m} (h : Wide m e) (he : e ≤ 971) :
    (Float.Model.pack (.finite s m e hm)).unpack = .finite s m e hm := by
  have hleast := h.least
  obtain ⟨b, hb⟩ : ∃ b : ℕ, e + 1075 = b := ⟨(e + 1075).toNat, by omega⟩
  have hbiased : (e + Format.binary64.exponentBias +
      Format.binary64.mantissaBitsWithoutImplicit).toNat = b := by
    show (e + (1023 : ℕ) + (52 : ℕ)).toNat = b
    omega
  show UnpackedFloat.unpack .binary64 (UnpackedFloat.pack .binary64 (.finite s m e hm)) = _
  unfold UnpackedFloat.pack
  simp only [hbiased]
  rw [if_neg (by show ¬ 2 ^ 11 ≤ b + 1; omega)]
  by_cases hfull : 2 ^ 52 ≤ m
  · rw [if_pos (by show m.log2 + 1 = 53; rw [log2_of_full hfull h.lt])]
    rw [unpack_packComponents_full hm hfull h.lt (by omega) (by omega), ← hb, add_sub_cancel_right]
  · have hlog : m.log2 < 52 := (Nat.log2_lt hm.ne').mpr (by omega)
    rw [if_neg (by show m.log2 + 1 ≠ 53; omega)]
    obtain rfl := h.full.resolve_left hfull
    exact unpack_packComponents_least hm (by omega)

/-- What is too large is infinite when it has been packed. -/
theorem unpack_pack_overflow {hm : 0 < m} (he : 971 < e) :
    (Float.Model.pack (.finite s m e hm)).unpack = .infinity s := by
  have hbiased : 2 ^ 11 ≤ (e + Format.binary64.exponentBias +
      Format.binary64.mantissaBitsWithoutImplicit).toNat + 1 := by
    show 2 ^ 11 ≤ (e + (1023 : ℕ) + (52 : ℕ)).toNat + 1
    omega
  show UnpackedFloat.unpack .binary64 (UnpackedFloat.pack .binary64 (.finite s m e hm)) = _
  unfold UnpackedFloat.pack
  simp only
  rw [if_pos hbiased]
  cases s <;> rfl

/-- A double is no number, infinite, or stands for a number below the first that is too large. -/
theorem unpack_cases (b : BitVec 64) :
    UnpackedFloat.unpack .binary64 b = .notANumber ∨
      (∃ s, UnpackedFloat.unpack .binary64 b = .infinity s) ∨
      ∃ q, Reads (UnpackedFloat.unpack .binary64 b) q ∧ |q| < 2 ^ (1024 : ℤ) := by
  have hexponent : (@unpackExponent .binary64 b).toNat < 2048 := BitVec.isLt _
  have hmantissa : (@unpackMantissa .binary64 b).toNat < 2 ^ 52 := BitVec.isLt _
  have hfinite {s : Sign} {m : ℕ} {e : ℤ} (hm : 0 < m) (hw : Wide m e) (he : e ≤ 971) :
      ∃ q, Reads (.finite s m e hm) q ∧ |q| < 2 ^ (1024 : ℤ) := by
    refine ⟨_, .finite s hm hw, ?_⟩
    rw [abs_signed, abs_of_nonneg (by positivity)]
    exact hw.lt_iff.mpr he
  unfold UnpackedFloat.unpack
  simp only
  split
  next =>
    split
    · exact .inr (.inl ⟨_, rfl⟩)
    · exact .inl rfl
  next hones =>
    right
    right
    have hlarge : (@unpackExponent .binary64 b).toNat ≠ 2047 := by
      intro h
      exact hones (BitVec.eq_of_toNat_eq h)
    split
    next hzero =>
      split
      · exact ⟨0, .zero _, by rw [abs_zero]; positivity⟩
      · rw [hzero]
        exact hfinite _ ⟨by omega, le_rfl, .inr rfl⟩ (by decide)
    next hzero =>
      have hpos : (@unpackExponent .binary64 b).toNat ≠ 0 := by
        intro h
        exact hzero (BitVec.eq_of_toNat_eq h)
      have hwhole : (1#1 ++ @unpackMantissa .binary64 b).toNat =
          2 ^ 52 + (@unpackMantissa .binary64 b).toNat := by
        rw [BitVec.toNat_append, Nat.shiftLeft_eq, Nat.mul_comm]
        exact (Nat.two_pow_add_eq_or_of_lt hmantissa 1).symm
      apply hfinite
      · rw [hwhole]
        refine ⟨by omega, ?_, .inl (by omega)⟩
        show -1074 ≤ ((@unpackExponent .binary64 b).toNat : ℤ) - ((1023 : ℕ) + (52 : ℕ))
        omega
      · show ((@unpackExponent .binary64 b).toNat : ℤ) - ((1023 : ℕ) + (52 : ℕ)) ≤ 971
        omega

end

end TextScore.Decimal

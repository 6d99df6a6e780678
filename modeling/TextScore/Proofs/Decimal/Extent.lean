import Mathlib
import TextScore.Proofs.Decimal.Scientific
import TextScore.Scalar

/-!
# Extent — how far results can lie

A finite result has finite operands.  What is no number makes every result no number, and the larger
of two is never what is no number unless both are.  A bound on the size of the operands bounds the
result, and a sum of numbers that are not below zero does not grow with the number of its terms once
they are too small to move it.
-/

namespace TextScore.Decimal

open Float.Model Float.Model.UnpackedFloat

variable {x y : Float} {p q : ℚ}

/-! ## 1. Finite results -/

theorem unpack_pack_notANumber : (Float.Model.pack .notANumber).unpack = .notANumber :=
  rfl

theorem unpack_pack_infinity (s : Sign) :
    (Float.Model.pack (.infinity s)).unpack = .infinity s := by
  cases s <;> rfl

/-- Packing leaves infinities and what is no number as they are. -/
theorem isFinite_of_unpack_pack {u : UnpackedFloat}
    (h : (Float.Model.pack u).unpack.isFinite = true) : u.isFinite = true := by
  cases u with
  | notANumber => cases h
  | infinity s =>
    rw [unpack_pack_infinity] at h
    exact h
  | zero s => rfl
  | finite s m e hm => rfl

theorem isFinite_of_add (h : (x + y).isFinite = true) :
    x.isFinite = true ∧ y.isFinite = true := by
  have hsum : (UnpackedFloat.add .binary64 x.toModel.unpack y.toModel.unpack).isFinite = true :=
    isFinite_of_unpack_pack h
  show x.toModel.unpack.isFinite = true ∧ y.toModel.unpack.isFinite = true
  generalize x.toModel.unpack = u at hsum
  generalize y.toModel.unpack = v at hsum
  cases u <;> cases v <;> try first | exact ⟨rfl, rfl⟩ | cases hsum
  -- infinities cancel, but not to a finite number
  case infinity.infinity s t => cases s <;> cases t <;> cases hsum

theorem isFinite_of_mul (h : (x * y).isFinite = true) :
    x.isFinite = true ∧ y.isFinite = true := by
  have hproduct : (UnpackedFloat.mul .binary64 x.toModel.unpack y.toModel.unpack).isFinite = true :=
    isFinite_of_unpack_pack h
  show x.toModel.unpack.isFinite = true ∧ y.toModel.unpack.isFinite = true
  generalize x.toModel.unpack = u at hproduct
  generalize y.toModel.unpack = v at hproduct
  -- nothing times infinity is no number, so even a factor of nothing must be finite
  cases u <;> cases v <;> first | exact ⟨rfl, rfl⟩ | cases hproduct

theorem isFinite_of_foldl {xs : List Float} {start : Float}
    (h : (xs.foldl (· + ·) start).isFinite = true) :
    start.isFinite = true ∧ ∀ x ∈ xs, x.isFinite = true := by
  induction xs generalizing start with
  | nil => exact ⟨h, nofun⟩
  | cons x rest ih =>
    obtain ⟨hnext, hrest⟩ := ih h
    obtain ⟨hstart, hx⟩ := isFinite_of_add hnext
    exact ⟨hstart, List.forall_mem_cons.mpr ⟨hx, hrest⟩⟩

theorem isFinite_of_sum {xs : List Float} (h : (Scalar.sum xs).isFinite = true) :
    ∀ x ∈ xs, x.isFinite = true :=
  (isFinite_of_foldl h).2

/-! ## 2. No number -/

theorem unpack_of_isNaN (h : x.isNaN = true) : x.toModel.unpack = .notANumber := by
  have hnumber : x.toModel.unpack.isNaN = true := h
  generalize x.toModel.unpack = u at hnumber
  cases u <;> first | rfl | cases hnumber

theorem isNaN_of_isFinite (h : x.isFinite = true) : x.isNaN = false := by
  obtain ⟨q, hq, -⟩ := exists_standsAt_of_isFinite h
  exact hq.isNaN

theorem isNaN_mul_left (h : x.isNaN = true) : (x * y).isNaN = true := by
  have hproduct : UnpackedFloat.mul .binary64 .notANumber y.toModel.unpack = .notANumber := by
    cases y.toModel.unpack <;> rfl
  show (Float.Model.pack (.mul .binary64 x.toModel.unpack y.toModel.unpack)).unpack.isNaN = true
  rw [unpack_of_isNaN h, hproduct, unpack_pack_notANumber]
  rfl

theorem isNaN_mul_right (h : y.isNaN = true) : (x * y).isNaN = true := by
  have hproduct : UnpackedFloat.mul .binary64 x.toModel.unpack .notANumber = .notANumber := by
    cases x.toModel.unpack <;> rfl
  show (Float.Model.pack (.mul .binary64 x.toModel.unpack y.toModel.unpack)).unpack.isNaN = true
  rw [unpack_of_isNaN h, hproduct, unpack_pack_notANumber]
  rfl

theorem isNaN_eq_false_of_le (h : x ≤ y) : x.isNaN = false ∧ y.isNaN = false := by
  obtain ⟨p, q, hp, hq, -⟩ := exists_standsAt_of_le h
  exact ⟨hp.isNaN, hq.isNaN⟩

/-! ## 3. The larger of two -/

theorem largerFloat_of_isNaN (h : x.isNaN = true) : Scalar.largerFloat x y = y := by
  unfold Scalar.largerFloat
  rw [h, Bool.true_or, if_pos rfl]

theorem largerFloat_of_le (h : x ≤ y) : Scalar.largerFloat x y = y := by
  unfold Scalar.largerFloat
  rw [decide_eq_true h, Bool.or_true, if_pos rfl]

theorem largerFloat_of_not_le (hx : x.isNaN = false) (h : ¬x ≤ y) :
    Scalar.largerFloat x y = x := by
  unfold Scalar.largerFloat
  rw [hx, decide_eq_false h, Bool.or_false, if_neg Bool.false_ne_true]

theorem le_largerFloat_left (hx : x.isNaN = false) : x ≤ Scalar.largerFloat x y := by
  by_cases h : x ≤ y
  · rwa [largerFloat_of_le h]
  · rw [largerFloat_of_not_le hx h]
    exact float_le_refl hx

theorem le_largerFloat_right (hy : y.isNaN = false) : y ≤ Scalar.largerFloat x y := by
  by_cases hx : x.isNaN = true
  · rw [largerFloat_of_isNaN hx]
    exact float_le_refl hy
  · rw [Bool.not_eq_true] at hx
    by_cases h : x ≤ y
    · rw [largerFloat_of_le h]
      exact float_le_refl hy
    · rw [largerFloat_of_not_le hx h]
      exact float_le_of_lt (float_lt_of_not_le hy hx h)

theorem largerFloat_cases (x y : Float) :
    Scalar.largerFloat x y = x ∨ Scalar.largerFloat x y = y := by
  unfold Scalar.largerFloat
  split
  · exact .inr rfl
  · exact .inl rfl

/-! ## 4. Infinities -/

theorem standsAt_limit {u : UnpackedFloat} (hu : u = .infinity .positive)
    (hx : x = .ofModel (.pack u)) : StandsAt x limit := by
  rw [hx]
  show Stands (Float.Model.pack u).unpack limit
  rw [hu, unpack_pack_infinity]
  exact .infinity .positive

/-- Nothing is larger than infinity. -/
theorem StandsAt.of_limit_le (hx : StandsAt x limit) (h : x ≤ y) : StandsAt y limit := by
  obtain ⟨p, q, hp, hq, hle⟩ := exists_standsAt_of_le h
  have hlimit : q = limit := le_antisymm (le_of_abs_le hq.abs_le) ((hx.eq hp).trans_le hle)
  rwa [hlimit] at hq

theorem not_standsAt_limit_of_isFinite (h : x.isFinite = true) : ¬StandsAt x limit := by
  intro hx
  rw [hx.isFinite_iff, abs_of_pos limit_pos] at h
  exact lt_irrefl _ h

theorem unpack_of_isFinite (h : x.isFinite = true) :
    (∃ s, x.toModel.unpack = .zero s) ∨ ∃ s m e hm, x.toModel.unpack = .finite s m e hm := by
  have hfinite : x.toModel.unpack.isFinite = true := h
  generalize x.toModel.unpack = u at hfinite
  cases u with
  | notANumber => cases hfinite
  | infinity s => cases hfinite
  | zero s => exact .inl ⟨s, rfl⟩
  | finite s m e hm => exact .inr ⟨s, m, e, hm, rfl⟩

theorem exists_standsAt_of_nonneg (h : 0 ≤ x) : ∃ q, StandsAt x q ∧ 0 ≤ q := by
  obtain ⟨z, q, hz, hq, hle⟩ := exists_standsAt_of_le h
  rw [hz.eq standsAt_zero] at hle
  exact ⟨q, hq, hle⟩

theorem exists_standsAt_of_pos (h : 0 < x) : ∃ q, StandsAt x q ∧ 0 < q := by
  obtain ⟨z, q, hz, hq, hlt⟩ := exists_standsAt_of_lt h
  rw [hz.eq standsAt_zero] at hlt
  exact ⟨q, hq, hlt⟩

theorem unpack_of_nonneg (h : 0 ≤ x) :
    (∃ s, x.toModel.unpack = .zero s) ∨ x.toModel.unpack = .infinity .positive ∨
      ∃ m e hm, x.toModel.unpack = .finite .positive m e hm := by
  obtain ⟨q, hq, hle⟩ := exists_standsAt_of_nonneg h
  unfold StandsAt at hq
  generalize x.toModel.unpack = u at hq
  cases hq with
  | number hq _ =>
    cases hq with
    | zero s => exact .inl ⟨s, rfl⟩
    | @finite s m e hm _ =>
      cases s
      · have hpos : (0 : ℚ) < m * 2 ^ e := by positivity
        rw [signed_negative] at hle
        linarith
      · exact .inr (.inr ⟨m, e, hm, rfl⟩)
  | infinity s =>
    cases s
    · rw [signed_negative] at hle
      linarith [limit_pos]
    · exact .inr (.inl rfl)

theorem unpack_of_pos (h : 0 < x) :
    x.toModel.unpack = .infinity .positive ∨
      ∃ m e hm, x.toModel.unpack = .finite .positive m e hm := by
  refine (unpack_of_nonneg (float_le_of_lt h)).resolve_left ?_
  rintro ⟨s, hzero⟩
  have hx : StandsAt x 0 := by
    unfold StandsAt
    rw [hzero]
    exact .number (.zero s) (lt_of_eq_of_lt abs_zero limit_pos)
  exact lt_irrefl _ ((standsAt_zero.lt_iff hx).mp h)

theorem StandsAt.limit_mul (hx : StandsAt x limit) (hy : 0 < y) :
    StandsAt (x * y) limit ∧ StandsAt (y * x) limit := by
  have hinfinity := hx.eq_infinity
  constructor
  all_goals
    refine standsAt_limit ?_ rfl
    rcases unpack_of_pos hy with h | ⟨m, e, hm, h⟩
    all_goals
      rw [hinfinity, h]
      rfl

theorem StandsAt.limit_sub (hx : StandsAt x limit) (hy : y.isFinite = true) :
    StandsAt (x - y) limit := by
  refine standsAt_limit ?_ rfl
  rcases unpack_of_isFinite hy with ⟨s, h⟩ | ⟨s, m, e, hm, h⟩
  all_goals
    rw [hx.eq_infinity, h]
    rfl

theorem StandsAt.limit_div (hx : StandsAt x limit) (hy : y.isFinite = true) (hpos : 0 < y) :
    StandsAt (x / y) limit := by
  refine standsAt_limit ?_ rfl
  rcases unpack_of_pos hpos with h | ⟨m, e, hm, h⟩
  · have hfinite : y.toModel.unpack.isFinite = true := hy
    rw [h] at hfinite
    cases hfinite
  · rw [hx.eq_infinity, h]
    rfl

theorem StandsAt.add_limit (hx : StandsAt x limit) (hy : 0 ≤ y) : StandsAt (y + x) limit := by
  obtain ⟨q, hq, hle⟩ := exists_standsAt_of_nonneg hy
  refine standsAt_limit ?_ rfl
  rw [hx.eq_infinity]
  exact (infinity_add hq hle).2

/-! ## 5. What is never the larger -/

/-- No number, or minus infinity. -/
def Sunk (x : Float) : Prop :=
  x.toModel.unpack = .notANumber ∨ x.toModel.unpack = .infinity .negative

theorem sunk_or_isFinite (h : ¬StandsAt x limit) : Sunk x ∨ x.isFinite = true := by
  unfold Sunk
  show _ ∨ x.toModel.unpack.isFinite = true
  unfold StandsAt at h
  generalize x.toModel.unpack = u at h
  cases u with
  | notANumber => exact .inl (.inl rfl)
  | infinity s =>
    cases s
    · exact .inl (.inr rfl)
    · exact absurd (.infinity .positive) h
  | zero s => exact .inr rfl
  | finite s m e hm => exact .inr rfl

theorem isFinite_of_pos (h : ¬StandsAt x limit) (hx : 0 < x) : x.isFinite = true := by
  refine (sunk_or_isFinite h).resolve_left ?_
  rcases unpack_of_pos hx with hpos | ⟨m, e, hm, hpos⟩
  all_goals
    unfold Sunk
    rw [hpos]
    rintro (hnan | hlow)
    · cases hnan
    · cases hlow

namespace Sunk

theorem of_pack {u : UnpackedFloat} (hu : u = .notANumber ∨ u = .infinity .negative)
    (hx : x = .ofModel (.pack u)) : Sunk x := by
  rw [hx]
  show (Float.Model.pack u).unpack = _ ∨ (Float.Model.pack u).unpack = _
  rcases hu with rfl | rfl
  · exact .inl unpack_pack_notANumber
  · exact .inr (unpack_pack_infinity .negative)

theorem largerFloat_eq (hx : Sunk x) (hy : y.isNaN = false) : Scalar.largerFloat x y = y := by
  rcases hx with h | h
  · apply largerFloat_of_isNaN
    show x.toModel.unpack.isNaN = true
    rw [h]
    rfl
  · obtain ⟨q, hq⟩ := exists_standsAt hy
    have hx : StandsAt x (-limit) := by
      unfold StandsAt
      rw [h]
      exact .infinity .negative
    exact largerFloat_of_le ((hx.le_iff hq).mpr (neg_le_of_abs_le hq.abs_le))

theorem mul (hx : Sunk x) (hy : 0 ≤ y) : Sunk (x * y) := by
  refine of_pack ?_ rfl
  rcases hx with hx | hx <;> rcases unpack_of_nonneg hy with ⟨s, h⟩ | h | ⟨m, e, hm, h⟩
  all_goals
    rw [hx, h]
    first | exact .inl rfl | exact .inr rfl

/-- Nothing times infinity is no number. -/
theorem limit_mul_zero (hx : StandsAt x limit) : Sunk (x * Float.ofNat 0) := by
  refine of_pack (.inl ?_) rfl
  rw [hx.eq_infinity]
  rfl

theorem add (hx : Sunk x) (hy : y.isFinite = true) : Sunk (y + x) := by
  refine of_pack ?_ rfl
  rcases hx with hx | hx <;> rcases unpack_of_isFinite hy with ⟨s, h⟩ | ⟨s, m, e, hm, h⟩
  all_goals
    rw [hx, h]
    first | exact .inl rfl | exact .inr rfl

theorem sub (hx : Sunk x) (hy : y.isFinite = true) : Sunk (x - y) := by
  refine of_pack ?_ rfl
  rcases hx with hx | hx <;> rcases unpack_of_isFinite hy with ⟨s, h⟩ | ⟨s, m, e, hm, h⟩
  all_goals
    rw [hx, h]
    first | exact .inl rfl | exact .inr rfl

theorem div (hx : Sunk x) (hy : 0 < y) : Sunk (x / y) := by
  refine of_pack ?_ rfl
  rcases hx with hx | hx <;> rcases unpack_of_pos hy with h | ⟨m, e, hm, h⟩
  all_goals
    rw [hx, h]
    first | exact .inl rfl | exact .inr rfl

end Sunk

/-! ## 6. Bounded size -/

/-- A number that is not larger than a power of two, nor below minus that. -/
def Bounded (k : ℤ) (x : Float) : Prop :=
  ∃ q, StandsAt x q ∧ |q| ≤ 2 ^ k

theorem two_zpow_lt_limit {k : ℤ} (hk : k ≤ 1023) : (2 : ℚ) ^ k < limit :=
  zpow_lt_zpow_right₀ (by norm_num) (by omega)

theorem bounded_of_nearest {v w : ℚ} {k : ℤ} (h : Nearest v w) (hx : StandsAt x (clip w))
    (hv : |v| ≤ 2 ^ k) (hlow : -1022 ≤ k) (hhigh : k ≤ 1023) : Bounded k x := by
  have hw : |w| ≤ 2 ^ k := h.abs.mono (nearest_two_zpow hlow) (abs_nonneg v) hv
  rw [clip_of_lt (hw.trans_lt (two_zpow_lt_limit hhigh))] at hx
  exact ⟨w, hx, hw⟩

namespace Bounded

variable {j k : ℤ}

theorem isFinite (hx : Bounded k x) (hk : k ≤ 1023) : x.isFinite = true := by
  obtain ⟨q, hq, hle⟩ := hx
  exact hq.isFinite_iff.mpr (hle.trans_lt (two_zpow_lt_limit hk))

theorem mono (hx : Bounded j x) (h : j ≤ k) : Bounded k x := by
  obtain ⟨q, hq, hle⟩ := hx
  exact ⟨q, hq, hle.trans (zpow_le_zpow_right₀ (by norm_num) h)⟩

theorem larger (hx : Bounded k x) (hy : Bounded k y) : Bounded k (Scalar.largerFloat x y) := by
  rcases largerFloat_cases x y with h | h
  · rwa [h]
  · rwa [h]

theorem add (hx : Bounded k x) (hy : Bounded k y) (hlow : -1022 ≤ k) (hhigh : k ≤ 1022) :
    Bounded (k + 1) (x + y) := by
  obtain ⟨p, hp, hple⟩ := hx
  obtain ⟨q, hq, hqle⟩ := hy
  have hlt := two_zpow_lt_limit (by omega : k ≤ 1023)
  obtain ⟨w, hw, hsum⟩ := hp.exists_add hq (hple.trans_lt hlt) (hqle.trans_lt hlt)
  refine bounded_of_nearest hw hsum ?_ (by omega) (by omega)
  rw [zpow_add_one₀ (by norm_num), mul_two]
  exact (abs_add_le p q).trans (add_le_add hple hqle)

theorem sub (hx : Bounded k x) (hy : Bounded k y) (hlow : -1022 ≤ k) (hhigh : k ≤ 1022) :
    Bounded (k + 1) (x - y) := by
  obtain ⟨p, hp, hple⟩ := hx
  obtain ⟨q, hq, hqle⟩ := hy
  have hlt := two_zpow_lt_limit (by omega : k ≤ 1023)
  obtain ⟨w, hw, hdifference⟩ := hp.exists_sub hq (hple.trans_lt hlt) (hqle.trans_lt hlt)
  refine bounded_of_nearest hw hdifference ?_ (by omega) (by omega)
  rw [zpow_add_one₀ (by norm_num), mul_two]
  exact (abs_sub p q).trans (add_le_add hple hqle)

theorem mul (hx : Bounded j x) (hy : Bounded k y) (hj : j ≤ 1023) (hk : k ≤ 1023)
    (hlow : -1022 ≤ j + k) (hhigh : j + k ≤ 1023) : Bounded (j + k) (x * y) := by
  obtain ⟨p, hp, hple⟩ := hx
  obtain ⟨q, hq, hqle⟩ := hy
  obtain ⟨w, hw, hproduct⟩ := hp.exists_mul hq (hple.trans_lt (two_zpow_lt_limit hj))
    (hqle.trans_lt (two_zpow_lt_limit hk))
  refine bounded_of_nearest hw hproduct ?_ hlow hhigh
  rw [abs_mul, zpow_add₀ (by norm_num)]
  gcongr

/-- Dividing by what is not too small. -/
theorem div (hx : Bounded j x) (hy : StandsAt y q) (hq : 2 ^ (-k) ≤ q) (hqlt : q < limit)
    (hj : j ≤ 1023) (hlow : -1022 ≤ j + k) (hhigh : j + k ≤ 1023) :
    Bounded (j + k) (x / y) := by
  obtain ⟨p, hp, hple⟩ := hx
  have hpos : 0 < q := lt_of_lt_of_le (by positivity) hq
  obtain ⟨w, hw, hquotient⟩ := hp.exists_div hy (hple.trans_lt (two_zpow_lt_limit hj))
    (lt_of_eq_of_lt (abs_of_pos hpos) hqlt) hpos.ne'
  refine bounded_of_nearest hw hquotient ?_ hlow hhigh
  rw [abs_div, abs_of_pos hpos, div_le_iff₀ hpos]
  calc |p| ≤ 2 ^ j := hple
    _ = 2 ^ (j + k) * 2 ^ (-k) := by
      rw [← zpow_add₀ (by norm_num), add_neg_cancel_right]
    _ ≤ 2 ^ (j + k) * q := by gcongr

end Bounded

/-! ## 7. Products and sums of numbers that are not below zero -/

/-- A factor that is not below one makes nothing smaller. -/
theorem float_le_mul_of_one_le (hx : 0 < x) (hy : 1 ≤ y) : x ≤ x * y ∧ x ≤ y * x := by
  obtain ⟨p, hp, hpos⟩ := exists_standsAt_of_pos hx
  obtain ⟨o, q, ho, hq, hone⟩ := exists_standsAt_of_le hy
  have hstands : StandsAt 1 ((1 : ℕ) : ℚ) := (denotes_ofNat (by decide)).standsAt
  rw [ho.eq hstands, Nat.cast_one] at hone
  have hq0 : 0 < q := one_pos.trans_le hone
  have hypos : 0 < y := (standsAt_zero.lt_iff hq).mpr hq0
  have hple := le_of_abs_le hp.abs_le
  have hqle := le_of_abs_le hq.abs_le
  by_cases hfinite : p < limit ∧ q < limit
  -- rounding keeps order, and the operand itself needs no rounding
  · have hplt := lt_of_eq_of_lt (abs_of_pos hpos) hfinite.1
    have hqlt := lt_of_eq_of_lt (abs_of_pos hq0) hfinite.2
    obtain ⟨v, hv, hleft⟩ := hp.exists_mul hq hplt hqlt
    obtain ⟨w, hw, hright⟩ := hq.exists_mul hp hqlt hplt
    have hpv := hp.nearest.mono hv hpos.le (le_mul_of_one_le_right hpos.le hone)
    have hpw := hp.nearest.mono hw hpos.le (le_mul_of_one_le_left hpos.le hone)
    exact ⟨(hp.le_iff hleft).mpr (le_clip hpv hple), (hp.le_iff hright).mpr (le_clip hpw hple)⟩
  -- an infinity among them is the product
  · have hinfinite : StandsAt (x * y) limit ∧ StandsAt (y * x) limit := by
      rcases hple.eq_or_lt with rfl | hplt
      · exact hp.limit_mul hypos
      · obtain rfl : q = limit := le_antisymm hqle (not_lt.mp fun hqlt => hfinite ⟨hplt, hqlt⟩)
        exact (hq.limit_mul hx).symm
    exact ⟨(hp.le_iff hinfinite.1).mpr hple, (hp.le_iff hinfinite.2).mpr hple⟩

theorem float_add_le_add {x' y' : Float} (hx : 0 ≤ x) (hxx : x ≤ x') (hy : 0 ≤ y) (hyy : y ≤ y') :
    x + y ≤ x' + y' := by
  obtain ⟨p, p', hp, hp', hple⟩ := exists_standsAt_of_le hxx
  obtain ⟨q, q', hq, hq', hqle⟩ := exists_standsAt_of_le hyy
  have hp0 : 0 ≤ p := (standsAt_zero.le_iff hp).mp hx
  have hq0 : 0 ≤ q := (standsAt_zero.le_iff hq).mp hy
  obtain ⟨w, hw, hsum⟩ := hp.exists_add_of_nonneg hq hp0 hq0
  obtain ⟨w', hw', hsum'⟩ :=
    hp'.exists_add_of_nonneg hq' (hp0.trans hple) (hq0.trans hqle)
  exact (hsum.le_iff hsum').mpr
    (clip_mono (hw.mono hw' (add_nonneg hp0 hq0) (add_le_add hple hqle)))

theorem float_le_add_of_nonneg (hx : 0 ≤ x) (hy : 0 ≤ y) : x ≤ x + y ∧ y ≤ x + y := by
  obtain ⟨p, hp, hp0⟩ := exists_standsAt_of_nonneg hx
  obtain ⟨q, hq, hq0⟩ := exists_standsAt_of_nonneg hy
  obtain ⟨w, hw, hsum⟩ := hp.exists_add_of_nonneg hq hp0 hq0
  have hpw := hp.nearest.mono hw hp0 (le_add_of_nonneg_right hq0)
  have hqw := hq.nearest.mono hw hq0 (le_add_of_nonneg_left hp0)
  exact ⟨(hp.le_iff hsum).mpr (le_clip hpw (le_of_abs_le hp.abs_le)),
    (hq.le_iff hsum).mpr (le_clip hqw (le_of_abs_le hq.abs_le))⟩

section

variable {xs : List Float} {start : Float}

theorem le_foldl (hstart : 0 ≤ start) (hxs : ∀ x ∈ xs, 0 ≤ x) :
    start ≤ xs.foldl (· + ·) start ∧ ∀ x ∈ xs, x ≤ xs.foldl (· + ·) start := by
  induction xs generalizing start with
  | nil => exact ⟨float_le_refl (isNaN_eq_false_of_le hstart).2, nofun⟩
  | cons x rest ih =>
    obtain ⟨hx, hrest⟩ := List.forall_mem_cons.mp hxs
    obtain ⟨hleft, hright⟩ := float_le_add_of_nonneg hstart hx
    obtain ⟨hnext, hmem⟩ := ih (float_le_trans hstart hleft) hrest
    exact ⟨float_le_trans hleft hnext,
      List.forall_mem_cons.mpr ⟨float_le_trans hright hnext, hmem⟩⟩

theorem foldl_le_foldl {ys : List Float} (h : List.Forall₂ (fun x y => 0 ≤ x ∧ x ≤ y) xs ys)
    {start' : Float} (hstart : 0 ≤ start) (hle : start ≤ start') :
    xs.foldl (· + ·) start ≤ ys.foldl (· + ·) start' := by
  induction h generalizing start start' with
  | nil => exact hle
  | cons hxy _ ih =>
    exact ih (float_le_trans hstart (float_le_add_of_nonneg hstart hxy.1).1)
      (float_add_le_add hstart hle hxy.1 hxy.2)

/-- A term that is too small leaves a sum as it is. -/
theorem nearest_stays {k : ℤ} (hk : -1022 ≤ k) :
    Nearest (2 ^ (k + 54) + 2 ^ k) ((2 : ℚ) ^ (k + 54)) := by
  have hpos : (0 : ℚ) < 2 ^ (k + 2) := by positivity
  have hfour : (2 : ℚ) ^ (k + 2) = 4 * 2 ^ k := by
    rw [zpow_add₀ (by norm_num)]
    ring
  have hlarge : (2 : ℚ) ^ (k + 54) = 2 ^ 52 * 2 ^ (k + 2) := by
    rw [← zpow_natCast, ← zpow_add₀ (by norm_num)]
    congr 1
    push_cast
    ring
  have hunits : ((2 : ℚ) ^ (k + 54) + 2 ^ k) / 2 ^ (k + 2) = 2 ^ 52 + 1 / 4 := by
    rw [div_eq_iff hpos.ne', hlarge, add_mul, hfour]
    ring
  have hvalue : (2 : ℚ) ^ (k + 54) + 2 ^ k = (2 ^ 52 + 1 / 4) * 2 ^ (k + 2) :=
    (div_eq_iff hpos.ne').mp hunits
  refine ⟨k + 2, 2 ^ 52, ⟨by omega, ?_, .inr ?_⟩, ⟨?_, fun h => ?_⟩, ?_⟩
  · rw [hvalue, abs_of_pos (by positivity), zpow_add₀ (by norm_num) 53]
    gcongr
    norm_num
  · rw [hvalue, abs_of_pos (by positivity), zpow_add₀ (by norm_num) 52]
    gcongr
    norm_num
  · rw [hunits]
    norm_num
  · rw [hunits] at h
    norm_num at h
  · rw [hlarge]
    norm_num

/-- However many terms there are, their sum is bounded. -/
theorem bounded_foldl {k : ℤ} (hlow : -1022 ≤ k) (hhigh : k ≤ 969)
    (hxs : ∀ x ∈ xs, 0 ≤ x ∧ Bounded k x) (hstart : 0 ≤ start) (hbound : Bounded (k + 54) start) :
    Bounded (k + 54) (xs.foldl (· + ·) start) := by
  -- the bound is kept term by term: at the bound itself a term is too small to move the sum
  induction xs generalizing start with
  | nil => exact hbound
  | cons x rest ih =>
    obtain ⟨⟨hx, q, hq, hqle⟩, hrest⟩ := List.forall_mem_cons.mp hxs
    refine ih hrest (float_le_trans hstart (float_le_add_of_nonneg hstart hx).1) ?_
    obtain ⟨p, hp, hple⟩ := hbound
    have hp0 : 0 ≤ p := (standsAt_zero.le_iff hp).mp hstart
    have hq0 : 0 ≤ q := (standsAt_zero.le_iff hq).mp hx
    obtain ⟨w, hw, hsum⟩ := hp.exists_add_of_nonneg hq hp0 hq0
    have hw0 : 0 ≤ w := Nearest.zero.mono hw le_rfl (add_nonneg hp0 hq0)
    have hwle : w ≤ 2 ^ (k + 54) := hw.mono (nearest_stays hlow) (add_nonneg hp0 hq0)
      (add_le_add (le_of_abs_le hple) (le_of_abs_le hqle))
    have hwabs : |w| ≤ 2 ^ (k + 54) := (abs_of_nonneg hw0).trans_le hwle
    rw [clip_of_lt (hwabs.trans_lt (two_zpow_lt_limit (by omega)))] at hsum
    exact ⟨w, hsum, hwabs⟩

end

/-! ## 8. Sums -/

section

variable {xs ys : List Float}

/-- Minus zero is the sum of nothing. -/
theorem standsAt_nothing : StandsAt (Scalar.nothing : Float) 0 :=
  .number (.zero .negative) (lt_of_eq_of_lt abs_zero limit_pos)

theorem nothing_nonneg : (0 : Float) ≤ Scalar.nothing :=
  (standsAt_zero.le_iff standsAt_nothing).mpr le_rfl

theorem float_sum_nonneg (hxs : ∀ x ∈ xs, 0 ≤ x) : 0 ≤ Scalar.sum xs :=
  float_le_trans nothing_nonneg (le_foldl nothing_nonneg hxs).1

theorem float_le_sum_of_mem (hxs : ∀ x ∈ xs, 0 ≤ x) (hx : x ∈ xs) : x ≤ Scalar.sum xs :=
  (le_foldl nothing_nonneg hxs).2 x hx

theorem float_sum_le_sum (h : List.Forall₂ (fun x y => 0 ≤ x ∧ x ≤ y) xs ys) :
    Scalar.sum xs ≤ Scalar.sum ys :=
  foldl_le_foldl h nothing_nonneg (float_le_refl standsAt_nothing.isNaN)

theorem bounded_sum (k : ℤ) (hlow : -1022 ≤ k) (hhigh : k ≤ 969)
    (hxs : ∀ x ∈ xs, 0 ≤ x ∧ Bounded k x) : Bounded (k + 54) (Scalar.sum xs) :=
  bounded_foldl hlow hhigh hxs nothing_nonneg
    ⟨0, standsAt_nothing, by rw [abs_zero]; positivity⟩

end

end TextScore.Decimal

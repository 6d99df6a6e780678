import Mathlib
import TextScore.Proofs.Decimal.Operations

/-!
# Line — where doubles stand

Every double that is a number stands at a place on the line of numbers: a finite one at the number it
stands for, and an infinity at the first power of two that is too large for the format.  Comparing
doubles is comparing places, and the result of an operation is rounded and kept between the ends.
-/

namespace TextScore.Decimal

open Float.Model Float.Model.UnpackedFloat

/-! ## 1. Places -/

/-- The first power of two that is too large: infinities stand here, on either side. -/
def limit : ℚ := 2 ^ (1024 : ℤ)

theorem limit_pos : 0 < limit := by
  unfold limit
  positivity

inductive Stands : UnpackedFloat → ℚ → Prop
  | number {u : UnpackedFloat} {q : ℚ} (h : Reads u q) (hlt : |q| < limit) : Stands u q
  | infinity (s : Sign) : Stands (.infinity s) (signed s limit)

/-- The place of a double that is a number. -/
def StandsAt (x : Float) (q : ℚ) : Prop :=
  Stands x.toModel.unpack q

theorem exists_standsAt {x : Float} (h : x.isNaN = false) : ∃ q, StandsAt x q := by
  unfold StandsAt
  have hnumber : x.toModel.unpack.isNaN = false := h
  rcases unpack_cases x.toModel.toBits.toBitVec with hnan | ⟨s, hinfinite⟩ | ⟨q, hq, hlt⟩
  · rw [show x.toModel.unpack = .notANumber from hnan] at hnumber
    cases hnumber
  · rw [show x.toModel.unpack = .infinity s from hinfinite]
    exact ⟨_, .infinity s⟩
  · exact ⟨q, .number hq hlt⟩

theorem compare_of_stands {u v : UnpackedFloat} {p q : ℚ} (hu : Stands u p) (hv : Stands v q) :
    u.compare v = some (compare p q) := by
  have hlimit := limit_pos
  cases hu with
  | number hu hlt =>
    cases hv with
    | number hv _ => exact compare_of_reads hu hv
    | infinity t =>
      -- a number is above the lower end and below the upper one
      obtain ⟨hlow, hhigh⟩ := abs_lt.mp hlt
      cases t
      · rw [signed_negative, compare_gt_iff_gt.mpr hlow]
        cases hu <;> rfl
      · rw [signed_positive, compare_lt_iff_lt.mpr hhigh]
        cases hu <;> rfl
  | infinity s =>
    cases hv with
    | number hv hlt =>
      obtain ⟨hlow, hhigh⟩ := abs_lt.mp hlt
      cases s
      · rw [signed_negative, compare_lt_iff_lt.mpr hlow]
        cases hv <;> rfl
      · rw [signed_positive, compare_gt_iff_gt.mpr hhigh]
        cases hv <;> rfl
    | infinity t =>
      cases s <;> cases t
      · rw [compare_eq_iff_eq.mpr rfl]
        rfl
      · rw [signed_negative, signed_positive, compare_lt_iff_lt.mpr (by linarith)]
        rfl
      · rw [signed_negative, signed_positive, compare_gt_iff_gt.mpr (by linarith)]
        rfl
      · rw [compare_eq_iff_eq.mpr rfl]
        rfl

section

variable {x y z : Float} {p q : ℚ}

theorem StandsAt.isNaN (h : StandsAt x q) : x.isNaN = false := by
  show x.toModel.unpack.isNaN = false
  unfold StandsAt at h
  generalize x.toModel.unpack = u at h
  cases h with
  | number h hlt => cases h <;> rfl
  | infinity s => rfl

theorem StandsAt.isFinite_iff (h : StandsAt x q) : x.isFinite = true ↔ |q| < limit := by
  show x.toModel.unpack.isFinite = true ↔ _
  unfold StandsAt at h
  generalize x.toModel.unpack = u at h
  cases h with
  | number h hlt =>
    have hfinite : u.isFinite = true := by cases h <;> rfl
    exact ⟨fun _ => hlt, fun _ => hfinite⟩
  | infinity s =>
    rw [abs_signed, abs_of_pos limit_pos]
    exact ⟨nofun, fun hlt => absurd hlt (lt_irrefl _)⟩

theorem exists_standsAt_of_isFinite {x : Float} (h : x.isFinite = true) :
    ∃ q, StandsAt x q ∧ |q| < limit := by
  have hnumber : x.isNaN = false := by
    have hfinite : x.toModel.unpack.isFinite = true := h
    show x.toModel.unpack.isNaN = false
    generalize x.toModel.unpack = u at hfinite
    cases u <;> first | rfl | cases hfinite
  obtain ⟨q, hq⟩ := exists_standsAt hnumber
  exact ⟨q, hq, hq.isFinite_iff.mp h⟩

theorem StandsAt.reads (h : StandsAt x q) (hq : |q| < limit) : Reads x.toModel.unpack q := by
  unfold StandsAt at h
  generalize x.toModel.unpack = u at h
  cases h with
  | number h _ => exact h
  | infinity s =>
    rw [abs_signed, abs_of_pos limit_pos] at hq
    exact absurd hq (lt_irrefl _)

/-- Every place has a mantissa, that of an infinity with an exponent that is too large. -/
theorem StandsAt.exists_reads (h : StandsAt x q) : ∃ u, Reads u q := by
  unfold StandsAt at h
  generalize x.toModel.unpack = u at h
  cases h with
  | number h _ => exact ⟨_, h⟩
  | infinity s =>
    have hlimit : limit = (2 ^ 52 : ℕ) * 2 ^ (972 : ℤ) := by
      rw [Nat.cast_pow, Nat.cast_ofNat, ← zpow_natCast, ← zpow_add₀ (by norm_num)]
      rfl
    rw [hlimit]
    exact ⟨_, .finite s (by decide) ⟨by decide, by decide, .inl le_rfl⟩⟩

theorem StandsAt.abs_le (h : StandsAt x q) : |q| ≤ limit := by
  unfold StandsAt at h
  generalize x.toModel.unpack = u at h
  cases h with
  | number _ hlt => exact hlt.le
  | infinity s => rw [abs_signed, abs_of_pos limit_pos]

/-- Only a number that is not a double is moved by rounding. -/
theorem StandsAt.nearest (h : StandsAt x q) : Nearest q q :=
  h.exists_reads.elim fun _ h => h.nearest

theorem standsAt_zero : StandsAt 0 0 :=
  .number (.zero .positive) (lt_of_eq_of_lt abs_zero limit_pos)

theorem StandsAt.eq_infinity (h : StandsAt x limit) : x.toModel.unpack = .infinity .positive := by
  have hpos := limit_pos
  unfold StandsAt at h
  generalize x.toModel.unpack = u at h
  generalize hq : limit = q at h
  cases h with
  | number h hlt =>
    rw [← hq, abs_of_pos hpos] at hlt
    exact absurd hlt (lt_irrefl _)
  | infinity s =>
    cases s
    · rw [signed_negative] at hq
      linarith
    · rfl

/-! ## 2. Order -/

theorem StandsAt.le_iff (hx : StandsAt x p) (hy : StandsAt y q) : x ≤ y ↔ p ≤ q := by
  have hle : x ≤ y ↔ (x.toModel.unpack.compare y.toModel.unpack).any (·.isLE) = true :=
    decide_eq_true_iff
  rw [hle, compare_of_stands hx hy, Option.any_some, ← compare_le_iff_le]
  cases compare p q <;> decide

theorem StandsAt.lt_iff (hx : StandsAt x p) (hy : StandsAt y q) : x < y ↔ p < q := by
  have hlt : x < y ↔ (x.toModel.unpack.compare y.toModel.unpack == some .lt) = true :=
    decide_eq_true_iff
  rw [hlt, compare_of_stands hx hy, ← compare_lt_iff_lt]
  cases compare p q <;> decide

theorem StandsAt.eq (hp : StandsAt x p) (hq : StandsAt x q) : p = q :=
  le_antisymm ((hp.le_iff hq).mp ((hp.le_iff hp).mpr le_rfl))
    ((hq.le_iff hp).mp ((hp.le_iff hp).mpr le_rfl))

/-- Only numbers compare. -/
theorem exists_standsAt_of_le (h : x ≤ y) : ∃ p q, StandsAt x p ∧ StandsAt y q ∧ p ≤ q := by
  have hle : (x.toModel.unpack.compare y.toModel.unpack).any (·.isLE) = true :=
    decide_eq_true_iff.mp h
  have hx : x.isNaN = false := by
    show x.toModel.unpack.isNaN = false
    generalize x.toModel.unpack = u at hle
    cases u <;> first | rfl | cases hle
  have hy : y.isNaN = false := by
    show y.toModel.unpack.isNaN = false
    generalize y.toModel.unpack = v at hle
    cases v
    case notANumber =>
      generalize x.toModel.unpack = u at hle
      cases u <;> cases hle
    all_goals rfl
  obtain ⟨p, hp⟩ := exists_standsAt hx
  obtain ⟨q, hq⟩ := exists_standsAt hy
  exact ⟨p, q, hp, hq, (hp.le_iff hq).mp h⟩

theorem exists_standsAt_of_lt (h : x < y) : ∃ p q, StandsAt x p ∧ StandsAt y q ∧ p < q := by
  have hlt : (x.toModel.unpack.compare y.toModel.unpack == some .lt) = true :=
    decide_eq_true_iff.mp h
  have hle : x ≤ y := by
    rw [beq_iff_eq] at hlt
    have hany : (x.toModel.unpack.compare y.toModel.unpack).any (·.isLE) = true := by
      rw [hlt]
      rfl
    exact decide_eq_true_iff.mpr hany
  obtain ⟨p, q, hp, hq, -⟩ := exists_standsAt_of_le hle
  exact ⟨p, q, hp, hq, (hp.lt_iff hq).mp h⟩

theorem float_le_refl (hx : x.isNaN = false) : x ≤ x := by
  obtain ⟨p, hp⟩ := exists_standsAt hx
  exact (hp.le_iff hp).mpr le_rfl

theorem float_le_of_lt (h : x < y) : x ≤ y := by
  obtain ⟨p, q, hp, hq, hlt⟩ := exists_standsAt_of_lt h
  exact (hp.le_iff hq).mpr hlt.le

theorem float_not_lt (h : x ≤ y) : ¬y < x := by
  obtain ⟨p, q, hp, hq, hle⟩ := exists_standsAt_of_le h
  rw [hq.lt_iff hp]
  exact not_lt.mpr hle

theorem float_le_of_not_lt (hx : x.isNaN = false) (hy : y.isNaN = false) (h : ¬y < x) : x ≤ y := by
  obtain ⟨p, hp⟩ := exists_standsAt hx
  obtain ⟨q, hq⟩ := exists_standsAt hy
  rw [hq.lt_iff hp] at h
  exact (hp.le_iff hq).mpr (not_lt.mp h)

theorem float_lt_of_not_le (hx : x.isNaN = false) (hy : y.isNaN = false) (h : ¬y ≤ x) : x < y := by
  obtain ⟨p, hp⟩ := exists_standsAt hx
  obtain ⟨q, hq⟩ := exists_standsAt hy
  rw [hq.le_iff hp] at h
  exact (hp.lt_iff hq).mpr (not_le.mp h)

theorem float_le_trans (hxy : x ≤ y) (hyz : y ≤ z) : x ≤ z := by
  obtain ⟨p, q, hp, hq, hpq⟩ := exists_standsAt_of_le hxy
  obtain ⟨q', r, hq', hr, hqr⟩ := exists_standsAt_of_le hyz
  obtain rfl := hq.eq hq'
  exact (hp.le_iff hr).mpr (hpq.trans hqr)

theorem float_lt_of_lt_of_le (hxy : x < y) (hyz : y ≤ z) : x < z := by
  obtain ⟨p, q, hp, hq, hpq⟩ := exists_standsAt_of_lt hxy
  obtain ⟨q', r, hq', hr, hqr⟩ := exists_standsAt_of_le hyz
  obtain rfl := hq.eq hq'
  exact (hp.lt_iff hr).mpr (hpq.trans_le hqr)

theorem float_lt_of_le_of_lt (hxy : x ≤ y) (hyz : y < z) : x < z := by
  obtain ⟨p, q, hp, hq, hpq⟩ := exists_standsAt_of_le hxy
  obtain ⟨q', r, hq', hr, hqr⟩ := exists_standsAt_of_lt hyz
  obtain rfl := hq.eq hq'
  exact (hp.lt_iff hr).mpr (hpq.trans_lt hqr)

/-! ## 3. Results of operations -/

/-- What is too large is kept at the end of the line. -/
def clip (w : ℚ) : ℚ :=
  max (-limit) (min w limit)

theorem clip_mono {v w : ℚ} (h : v ≤ w) : clip v ≤ clip w :=
  max_le_max_left _ (min_le_min_right _ h)

theorem clip_of_lt {w : ℚ} (h : |w| < limit) : clip w = w := by
  obtain ⟨hlow, hhigh⟩ := abs_lt.mp h
  unfold clip
  rw [min_eq_left hhigh.le, max_eq_right hlow.le]

theorem le_clip {v w : ℚ} (h : v ≤ w) (hv : v ≤ limit) : v ≤ clip w :=
  le_max_of_le_right (le_min h hv)

theorem clip_pos {w : ℚ} (h : 0 < w) : 0 < clip w :=
  lt_max_of_lt_right (lt_min h limit_pos)

theorem clip_lt_limit_iff {w : ℚ} : clip w < limit ↔ w < limit := by
  have hlimit := limit_pos
  unfold clip
  rw [max_lt_iff, min_lt_iff]
  exact ⟨fun h => h.2.resolve_right (lt_irrefl _), fun h => ⟨by linarith, .inl h⟩⟩

theorem clip_of_le_of_clip_lt {v w : ℚ} (hv : 0 ≤ v) (h : v ≤ w) (hw : clip w < limit) :
    clip v = v :=
  clip_of_lt (lt_of_eq_of_lt (abs_of_nonneg hv) (h.trans_lt (clip_lt_limit_iff.mp hw)))

theorem abs_clip_sub_clip_le (v w : ℚ) : |clip v - clip w| ≤ |v - w| := by
  have hlow := abs_max_sub_max_le_abs (min v limit) (min w limit) (-limit)
  unfold clip
  rw [max_comm (-limit), max_comm (-limit)]
  exact hlow.trans (abs_inf_sub_inf_le_abs v w limit)

theorem clip_signed (s : Sign) {w : ℚ} (h : limit ≤ w) : clip (signed s w) = signed s limit := by
  have hlimit := limit_pos
  unfold clip
  cases s
  · rw [signed_negative, signed_negative, min_eq_left (by linarith), max_eq_left (by linarith)]
  · rw [signed_positive, signed_positive, min_eq_right h, max_eq_right (by linarith)]

theorem clip_of_le {w : ℚ} (h : limit ≤ w) : clip w = limit :=
  clip_signed .positive h

/-- A result that is packed stands where it was rounded to, or at the end of the line. -/
theorem Reads.standsAt {u : UnpackedFloat} {w : ℚ} (h : Reads u w) (hz : z = .ofModel (.pack u)) :
    StandsAt z (clip w) := by
  rw [hz]
  show Stands (Float.Model.pack u).unpack (clip w)
  cases h with
  | zero s =>
    have hzero : |(0 : ℚ)| < limit := by rw [abs_zero]; exact limit_pos
    have hsame : (Float.Model.pack (.zero s)).unpack = .zero s := unpack_packedZero
    rw [clip_of_lt hzero, hsame]
    exact .number (.zero s) hzero
  | @finite s m e hm hw =>
    by_cases he : e ≤ 971
    · have hlt : |signed s (m * (2 : ℚ) ^ e)| < limit := by
        rw [abs_signed, abs_of_nonneg (by positivity)]
        exact hw.lt_iff.mpr he
      rw [clip_of_lt hlt, unpack_pack_finite hw he]
      exact .number (.finite s hm hw) hlt
    · rw [clip_signed s (not_lt.mp (mt hw.lt_iff.mp he)), unpack_pack_overflow (not_le.mp he)]
      exact .infinity s

section

variable (hx : StandsAt x p) (hy : StandsAt y q) (hp : |p| < limit) (hq : |q| < limit)
include hx hy hp hq

theorem StandsAt.exists_add : ∃ w, Nearest (p + q) w ∧ StandsAt (x + y) (clip w) := by
  obtain ⟨w, hw, hnearest⟩ := exists_nearest_add (hx.reads hp) (hy.reads hq)
  exact ⟨w, hnearest, hw.standsAt rfl⟩

theorem StandsAt.exists_sub : ∃ w, Nearest (p - q) w ∧ StandsAt (x - y) (clip w) := by
  obtain ⟨w, hw, hnearest⟩ := exists_nearest_sub (hx.reads hp) (hy.reads hq)
  exact ⟨w, hnearest, hw.standsAt rfl⟩

theorem StandsAt.exists_mul : ∃ w, Nearest (p * q) w ∧ StandsAt (x * y) (clip w) := by
  obtain ⟨w, hw, hnearest⟩ := exists_nearest_mul (hx.reads hp) (hy.reads hq)
  exact ⟨w, hnearest, hw.standsAt rfl⟩

theorem StandsAt.exists_div (hne : q ≠ 0) :
    ∃ w, Nearest (p / q) w ∧ StandsAt (x / y) (clip w) := by
  obtain ⟨w, hw, hnearest⟩ := exists_nearest_div (hx.reads hp) (hy.reads hq) hne
  exact ⟨w, hnearest, hw.standsAt rfl⟩

end

theorem StandsAt.neg (hx : StandsAt x p) (hp : |p| < limit) : StandsAt (-x) (-p) := by
  have h := (hx.reads hp).neg.standsAt rfl
  rwa [clip_of_lt (lt_of_eq_of_lt (abs_neg p) hp)] at h

/-! ## 4. Overflow -/

/-- Half the distance between the largest doubles. -/
def halfStep : ℚ := 2 ^ (970 : ℤ)

theorem halfStep_pos : 0 < halfStep := by
  unfold halfStep
  positivity

theorem two_mul_halfStep : 2 * halfStep = 2 ^ (971 : ℤ) := by
  unfold halfStep
  rw [show (971 : ℤ) = 1 + 970 from rfl, zpow_add₀ (by norm_num), zpow_one]

theorem limit_eq : limit = 2 ^ 54 * halfStep := by
  unfold limit halfStep
  rw [← zpow_natCast, ← zpow_add₀ (by norm_num)]
  rfl

/-- The middle between the largest double and the limit. -/
def overflowBound : ℚ := limit - halfStep

theorem overflowBound_pos : 0 < overflowBound := by
  have := halfStep_pos
  unfold overflowBound
  rw [limit_eq]
  linarith

/-- What is halfway to the limit goes there. -/
theorem nearest_overflowBound : Nearest overflowBound limit := by
  have hstep := halfStep_pos
  have hbound : overflowBound = (2 ^ 53 - 1 / 2) * 2 ^ (971 : ℤ) := by
    rw [overflowBound, limit_eq, ← two_mul_halfStep]
    ring
  have hpos : (0 : ℚ) < 2 ^ (971 : ℤ) := by positivity
  refine ⟨971, 2 ^ 53, ⟨by decide, ?_, .inr ?_⟩, ⟨?_, fun _ => by decide⟩, ?_⟩
  · rw [abs_of_pos overflowBound_pos]
    exact sub_lt_self limit hstep
  · rw [abs_of_pos overflowBound_pos, hbound, zpow_add₀ (by norm_num)]
    gcongr
    norm_num
  · rw [hbound, mul_div_cancel_right₀ _ hpos.ne']
    norm_num
  · rw [limit_eq, ← two_mul_halfStep]
    push_cast
    ring

/-- A number that is not below zero becomes too large from halfway between the largest double and
the limit on. -/
theorem Nearest.lt_limit_iff {v w : ℚ} (h : Nearest v w) (hv : 0 ≤ v) :
    w < limit ↔ v < overflowBound := by
  constructor
  · intro hlt
    by_contra hge
    have hle := nearest_overflowBound.mono h overflowBound_pos.le (not_lt.mp hge)
    linarith
  · intro hlt
    obtain ⟨T, hT, hmove⟩ := h.exists_abs_sub_le
    have hplace : T ≤ 971 := by
      rcases hT.full with rfl | hfull
      · decide
      · have hbelow : (2 : ℚ) ^ (52 + T) < 2 ^ (1024 : ℤ) := by
          rw [abs_of_nonneg hv] at hfull
          exact hfull.trans_lt (hlt.trans (sub_lt_self limit halfStep_pos))
        have := (zpow_lt_zpow_iff_right₀ (by norm_num)).mp hbelow
        omega
    have hhalf : (2 : ℚ) ^ T / 2 ≤ halfStep := by
      have := two_mul_halfStep
      have : (2 : ℚ) ^ T ≤ 2 ^ (971 : ℤ) := zpow_le_zpow_right₀ (by norm_num) hplace
      linarith
    have hmoved := (abs_le.mp hmove).2
    unfold overflowBound at hlt
    linarith

/-! ## 5. Sums of numbers that are not below zero -/

theorem infinity_add {u : UnpackedFloat} (h : Stands u q) (hq : 0 ≤ q) :
    UnpackedFloat.add .binary64 (.infinity .positive) u = .infinity .positive ∧
      UnpackedFloat.add .binary64 u (.infinity .positive) = .infinity .positive := by
  cases h with
  | number h _ => cases h <;> exact ⟨rfl, rfl⟩
  | infinity s =>
    cases s
    · rw [signed_negative] at hq
      linarith [limit_pos]
    · exact ⟨rfl, rfl⟩

/-- The sum of two that are not below zero is rounded from the sum of their places, also where an
infinity is among them. -/
theorem StandsAt.exists_add_of_nonneg (hx : StandsAt x p) (hy : StandsAt y q) (hp : 0 ≤ p)
    (hq : 0 ≤ q) : ∃ w, Nearest (p + q) w ∧ StandsAt (x + y) (clip w) := by
  have hple := le_of_abs_le hx.abs_le
  have hqle := le_of_abs_le hy.abs_le
  by_cases hfinite : p < limit ∧ q < limit
  · refine hx.exists_add hy ?_ ?_
    · rw [abs_of_nonneg hp]
      exact hfinite.1
    · rw [abs_of_nonneg hq]
      exact hfinite.2
  · -- the places are far enough for the rounded sum to be beyond the end
    have hsum : limit ≤ p + q := by
      by_contra hlt
      exact hfinite ⟨by linarith, by linarith⟩
    obtain ⟨u, hu⟩ := hx.exists_reads
    obtain ⟨v, hv⟩ := hy.exists_reads
    obtain ⟨w, -, hw⟩ := exists_nearest_add hu hv
    have hover : overflowBound ≤ p + q := (sub_le_self limit halfStep_pos.le).trans hsum
    refine ⟨w, hw, ?_⟩
    rw [clip_of_le (not_lt.mp (mt (hw.lt_limit_iff (by linarith)).mp (not_lt.mpr hover)))]
    have hinfinite : UnpackedFloat.add .binary64 x.toModel.unpack y.toModel.unpack =
        .infinity .positive := by
      rcases hple.eq_or_lt with rfl | hplt
      · rw [hx.eq_infinity]
        exact (infinity_add hy hq).1
      · obtain rfl : q = limit := le_antisymm hqle (not_lt.mp fun hqlt => hfinite ⟨hplt, hqlt⟩)
        rw [hy.eq_infinity]
        exact (infinity_add hx hp).2
    show Stands (Float.Model.pack (UnpackedFloat.add .binary64 _ _)).unpack limit
    rw [hinfinite]
    exact .infinity .positive

end

end TextScore.Decimal

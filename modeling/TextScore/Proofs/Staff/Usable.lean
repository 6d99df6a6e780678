import Mathlib
import TextScore.Config.Read
import TextScore.Proofs.Decimal.Extent
import TextScore.Proofs.Notation.Fullness
import TextScore.Staff

/-!
# Usable — what a checked style is drawn as

Checking a configuration refuses widths that are not above zero, but a width that is no number is
not below zero either.  So every measure is drawn with some width above zero unless both widths are
no numbers, and then none is.  Infinite settings are not refused at all.  Whether anything can be
drawn is told by the width of the staff alone; for settings that are neither too small nor too large
it is told by the settings.
-/

namespace TextScore

open Decimal

/-! ## 1. What can be drawn -/

/-- A staff and its measures have finite widths, and no measure vanishes. -/
structure StaffGeometry.Usable (g : StaffGeometry Float) : Prop where
  width : g.width.isFinite = true
  measures : ∀ w ∈ g.measureWidths, w.isFinite = true ∧ 0 < w

namespace StaffStyle

/-- Neither of the two widths is a number. -/
def Unmeasured (style : StaffStyle Float) : Prop :=
  style.minMeasureWidth.isNaN = true ∧ style.pixelsPerComplexityUnit.isNaN = true

/-- What checking a configuration says about its style. -/
structure Checked (style : StaffStyle Float) : Prop where
  least : ¬style.minMeasureWidth ≤ 0
  unit : ¬style.pixelsPerComplexityUnit ≤ 0

/-- What the settings must be like: nothing that is used is infinite, and one of the two widths is a
number.  What weighs the notes may be infinite where it weighs nothing. -/
structure Drawable (style : StaffStyle Float) (room : Float) (measures : List Measure) : Prop where
  margin : style.marginX.isFinite = true
  measured : ¬style.Unmeasured
  least : ¬StandsAt style.minMeasureWidth limit
  unit : ¬StandsAt style.pixelsPerComplexityUnit limit
  density : StandsAt style.densityWeight limit →
    style.pixelsPerComplexityUnit.isNaN = true ∨ ∀ m ∈ measures, m.notes = []
  room : ¬StandsAt room limit

end StaffStyle

namespace Config

variable {config checked : Config}

theorem check_eq_ok (h : config.check = .ok checked) :
    checked = config ∧ config.layout.Checked := by
  unfold check at h
  split at h
  next => cases h
  next =>
    split at h
    next => cases h
    next hwidths =>
      rw [Bool.or_eq_true, decide_eq_true_eq, decide_eq_true_eq, not_or] at hwidths
      exact ⟨(Except.ok.inj h).symm, hwidths.1, hwidths.2⟩

theorem check_standard : standard.check = .ok standard := by
  unfold check
  rw [if_neg (by decide +kernel), if_neg (by decide +kernel)]

/-- What a text describes has been checked. -/
theorem check_of_ofText {text : String} (h : ofText text = .ok config) :
    config.check = .ok config := by
  unfold ofText at h
  split at h
  next =>
    obtain rfl := Except.ok.inj h
    exact check_standard
  next =>
    split at h
    next => cases h
    next =>
      obtain ⟨rfl, -⟩ := check_eq_ok h
      exact check_standard
    next =>
      split at h
      next => cases h
      next =>
        obtain ⟨rfl, -⟩ := check_eq_ok h
        exact h

end Config

namespace Staff

variable {style : StaffStyle Float} {measures : List Measure} {c : Float}

/-! ## 2. Complexities -/

theorem one_le_larger (x : Float) : 1 ≤ Scalar.larger x (Scalar.ofNat 1) :=
  le_largerFloat_right (denotes_ofNat (by decide)).standsAt.isNaN

/-- The complexities of the measures, and one for a document without measures. -/
def complexities (style : StaffStyle Float) (measures : List Measure) : List Float :=
  if measures.isEmpty then [Scalar.ofNat 1] else measures.map (complexity style)

theorem baseWidths_eq_map (style : StaffStyle Float) (measures : List Measure) :
    baseWidths style measures = (complexities style measures).map (baseWidth style) := by
  unfold baseWidths complexities
  split
  · rfl
  · rw [List.map_map]
    rfl

theorem exists_of_mem_baseWidths {base : Float} (h : base ∈ baseWidths style measures) :
    ∃ c ∈ complexities style measures, baseWidth style c = base := by
  rw [baseWidths_eq_map] at h
  exact List.mem_map.mp h

theorem baseWidth_mem (hc : c ∈ complexities style measures) :
    baseWidth style c ∈ baseWidths style measures := by
  rw [baseWidths_eq_map]
  exact List.mem_map_of_mem hc

/-- There is always something to draw. -/
theorem exists_mem_complexities (style : StaffStyle Float) (measures : List Measure) :
    ∃ c, c ∈ complexities style measures := by
  cases measures with
  | nil => exact ⟨_, List.mem_singleton_self _⟩
  | cons m rest => exact ⟨_, List.mem_cons_self⟩

theorem complexities_cases (hc : c ∈ complexities style measures) :
    c = Scalar.ofNat 1 ∨ ∃ m ∈ measures, complexity style m = c := by
  unfold complexities at hc
  split at hc
  · exact .inl (List.mem_singleton.mp hc)
  · exact .inr (List.mem_map.mp hc)

theorem complexity_mem {m : Measure} (hm : m ∈ measures) :
    complexity style m ∈ complexities style measures := by
  unfold complexities
  rw [if_neg (by rw [List.isEmpty_iff]; exact List.ne_nil_of_mem hm)]
  exact List.mem_map_of_mem hm

theorem one_le_of_mem_complexities (hc : c ∈ complexities style measures) : 1 ≤ c := by
  rcases complexities_cases hc with rfl | ⟨m, -, rfl⟩
  · exact float_le_refl (denotes_ofNat (by decide)).standsAt.isNaN
  · exact one_le_larger _

/-! ## 3. Base widths -/

theorem isNaN_baseWidth (h : style.Unmeasured) (c : Float) : (baseWidth style c).isNaN = true := by
  unfold baseWidth
  rw [show Scalar.larger style.minMeasureWidth (c * style.pixelsPerComplexityUnit) =
    c * style.pixelsPerComplexityUnit from largerFloat_of_isNaN h.1]
  exact isNaN_mul_right h.2

section

variable (hchecked : style.Checked) (hone : 1 ≤ c)
include hchecked

theorem least_pos (h : style.minMeasureWidth.isNaN = false) : 0 < style.minMeasureWidth :=
  float_lt_of_not_le standsAt_zero.isNaN h hchecked.least

theorem unit_pos (h : style.pixelsPerComplexityUnit.isNaN = false) :
    0 < style.pixelsPerComplexityUnit :=
  float_lt_of_not_le standsAt_zero.isNaN h hchecked.unit

include hone

theorem unit_le_mul (h : style.pixelsPerComplexityUnit.isNaN = false) :
    style.pixelsPerComplexityUnit ≤ c * style.pixelsPerComplexityUnit :=
  (float_le_mul_of_one_le (unit_pos hchecked h) hone).2

/-- The least width is a lower bound if it is a number, and otherwise the unit is one. -/
theorem le_baseWidth (hsome : ¬style.Unmeasured) :
    (style.minMeasureWidth.isNaN = false ∧ style.minMeasureWidth ≤ baseWidth style c) ∨
      (style.pixelsPerComplexityUnit.isNaN = false ∧
        style.pixelsPerComplexityUnit ≤ baseWidth style c) := by
  by_cases h : style.minMeasureWidth.isNaN = true
  · have hnumber : style.pixelsPerComplexityUnit.isNaN = false :=
      Bool.eq_false_iff.mpr fun hnan => hsome ⟨h, hnan⟩
    have hgrown := unit_le_mul hchecked hone hnumber
    have hlarger : c * style.pixelsPerComplexityUnit ≤ baseWidth style c :=
      le_largerFloat_right (isNaN_eq_false_of_le hgrown).2
    exact .inr ⟨hnumber, float_le_trans hgrown hlarger⟩
  · rw [Bool.not_eq_true] at h
    exact .inl ⟨h, le_largerFloat_left h⟩

theorem baseWidth_pos (hsome : ¬style.Unmeasured) : 0 < baseWidth style c := by
  rcases le_baseWidth hchecked hone hsome with ⟨hnumber, hle⟩ | ⟨hnumber, hle⟩
  · exact float_lt_of_lt_of_le (least_pos hchecked hnumber) hle
  · exact float_lt_of_lt_of_le (unit_pos hchecked hnumber) hle

end

theorem baseWidths_pos (hchecked : style.Checked) (hsome : ¬style.Unmeasured) {base : Float}
    (hbase : base ∈ baseWidths style measures) : 0 < base := by
  obtain ⟨c, hc, rfl⟩ := exists_of_mem_baseWidths hbase
  exact baseWidth_pos hchecked (one_le_of_mem_complexities hc) hsome

/-! ## 4. Widths of the measures -/

variable {container : Float} {w : Float}

/-- The factor by which all measures grow. -/
def scale (style : StaffStyle Float) (container : Float) (measures : List Measure) : Float :=
  stretch style (roomWidth style container) (baseWidths style measures)

theorem one_le_scale : 1 ≤ scale style container measures :=
  one_le_larger _

theorem exists_base (hw : w ∈ (geometry style container measures).measureWidths) :
    ∃ base ∈ baseWidths style measures, base * scale style container measures = w :=
  List.mem_map.mp hw

theorem mem_measureWidths {base : Float} (hbase : base ∈ baseWidths style measures) :
    base * scale style container measures ∈ (geometry style container measures).measureWidths :=
  List.mem_map_of_mem hbase

theorem isNaN_of_unmeasured (h : style.Unmeasured)
    (hw : w ∈ (geometry style container measures).measureWidths) : w.isNaN = true := by
  obtain ⟨base, hbase, rfl⟩ := exists_base hw
  obtain ⟨c, -, rfl⟩ := exists_of_mem_baseWidths hbase
  exact isNaN_mul_left (isNaN_baseWidth h c)

theorem pos_of_measured (hchecked : style.Checked) (hsome : ¬style.Unmeasured)
    (hw : w ∈ (geometry style container measures).measureWidths) : 0 < w := by
  obtain ⟨base, hbase, rfl⟩ := exists_base hw
  have hpos := baseWidths_pos hchecked hsome hbase
  exact float_lt_of_lt_of_le hpos (float_le_mul_of_one_le hpos one_le_scale).1

theorem isFinite_of_width (h : (geometry style container measures).width.isFinite = true) :
    (∀ w ∈ (geometry style container measures).measureWidths, w.isFinite = true) ∧
      style.marginX.isFinite = true := by
  obtain ⟨hcontent, hmargins⟩ := isFinite_of_add h
  exact ⟨isFinite_of_sum hcontent, (isFinite_of_mul hmargins).2⟩

theorem measured_of_width (h : (geometry style container measures).width.isFinite = true) :
    ¬style.Unmeasured := by
  intro hnan
  obtain ⟨c, hc⟩ := exists_mem_complexities style measures
  have hw : baseWidth style c * scale style container measures ∈ _ :=
    mem_measureWidths (baseWidth_mem hc)
  have hnumber := isNaN_of_isFinite ((isFinite_of_width h).1 _ hw)
  rw [isNaN_of_unmeasured hnan hw] at hnumber
  cases hnumber

/-- Of a checked style the width of the staff tells whether anything can be drawn. -/
theorem usable_iff_width (hchecked : style.Checked) :
    (geometry style container measures).Usable ↔
      (geometry style container measures).width.isFinite = true := by
  refine ⟨fun h => h.width, fun h => ⟨h, fun w hw => ?_⟩⟩
  exact ⟨(isFinite_of_width h).1 w hw, pos_of_measured hchecked (measured_of_width h) hw⟩

/-! ## 5. What is needed -/

/-- A larger one that is finite is the larger of two that are not infinite. -/
theorem not_limit_of_isFinite_larger {x y : Float}
    (h : (Scalar.larger x y : Float).isFinite = true) :
    ¬StandsAt x limit ∧ ¬StandsAt y limit := by
  have hlarger := not_standsAt_limit_of_isFinite h
  exact ⟨fun hx => hlarger (hx.of_limit_le (le_largerFloat_left hx.isNaN)),
    fun hy => hlarger (hy.of_limit_le (le_largerFloat_right hy.isNaN))⟩

theorem isFinite_baseWidth (h : (geometry style container measures).width.isFinite = true)
    (hc : c ∈ complexities style measures) : (baseWidth style c).isFinite = true :=
  (isFinite_of_mul ((isFinite_of_width h).1 _ (mem_measureWidths (baseWidth_mem hc)))).1

/-- The measures are not narrower than they were. -/
theorem sum_baseWidths_le (hchecked : style.Checked) (hsome : ¬style.Unmeasured) :
    Scalar.sum (baseWidths style measures) ≤
      Scalar.sum (geometry style container measures).measureWidths := by
  apply float_sum_le_sum
  rw [show (geometry style container measures).measureWidths =
    (baseWidths style measures).map (· * scale style container measures) from rfl,
    List.forall₂_map_right_iff, List.forall₂_same]
  intro base hbase
  have hpos := baseWidths_pos hchecked hsome hbase
  exact ⟨float_le_of_lt hpos, (float_le_mul_of_one_le hpos one_le_scale).1⟩

theorem sum_baseWidths_pos (hchecked : style.Checked) (hsome : ¬style.Unmeasured) {base : Float}
    (hbase : base ∈ baseWidths style measures) :
    base ≤ Scalar.sum (baseWidths style measures) ∧
      0 < Scalar.sum (baseWidths style measures) := by
  have hpos := fun {x} (hx : x ∈ baseWidths style measures) => baseWidths_pos hchecked hsome hx
  have hle := float_le_sum_of_mem (fun x hx => float_le_of_lt (hpos hx)) hbase
  exact ⟨hle, float_lt_of_lt_of_le (hpos hbase) hle⟩

/-- Infinite room is filled with infinite measures. -/
theorem scale_of_limit (hroom : StandsAt (roomWidth style container) limit)
    (hmargins : (Scalar.ofNat 2 * style.marginX).isFinite = true)
    (hsum : (Scalar.sum (baseWidths style measures)).isFinite = true)
    (hpos : 0 < Scalar.sum (baseWidths style measures)) :
    StandsAt (scale style container measures) limit := by
  have hfactor := (hroom.limit_sub hmargins).limit_div hsum hpos
  exact hfactor.of_limit_le (le_largerFloat_left hfactor.isNaN)

theorem totalBeats_nonneg_bounded (notes : List Note) :
    0 ≤ (totalBeats notes : Float) ∧ Bounded 56 (totalBeats notes : Float) := by
  have hbeats : ∀ x ∈ notes.map (fun note => (note.duration.beats : Float)),
      0 ≤ x ∧ Bounded 2 x := by
    intro x hx
    obtain ⟨note, -, rfl⟩ := List.mem_map.mp hx
    have hstands := (Notation.denotes_beats note.duration).standsAt
    have hnonneg : (0 : ℚ) ≤ note.duration.sixteenths / 4 := by positivity
    refine ⟨(standsAt_zero.le_iff hstands).mpr hnonneg, _, hstands, ?_⟩
    rw [abs_of_nonneg hnonneg]
    cases note.duration <;> norm_num [Duration.sixteenths]
  exact ⟨float_sum_nonneg fun x hx => (hbeats x hx).1,
    bounded_sum 2 (by norm_num) (by norm_num) hbeats⟩

theorem ofNat_pos {n : ℕ} (hn : n ≠ 0) : 0 < Float.ofNat n :=
  float_lt_of_lt_of_le ((standsAt_zero.lt_iff (denotes_ofNat (by decide)).standsAt).mpr
    (by norm_num : (0 : ℚ) < (1 : ℕ))) (ofNat_le_ofNat (Nat.one_le_iff_ne_zero.mpr hn))

/-- A measure with notes is infinitely complex if they weigh infinitely much. -/
theorem complexity_of_limit (hdensity : StandsAt style.densityWeight limit) {m : Measure}
    (hm : m.notes ≠ []) : StandsAt (complexity style m) limit := by
  have hweight := (hdensity.limit_mul (ofNat_pos (mt List.length_eq_zero_iff.mp hm))).1
  have htotal := hweight.add_limit (totalBeats_nonneg_bounded m.notes).1
  exact htotal.of_limit_le (le_largerFloat_left htotal.isNaN)

/-- Whatever is drawn has been drawn with settings that can be drawn. -/
theorem drawable_of_width (hchecked : style.Checked)
    (h : (geometry style container measures).width.isFinite = true) :
    style.Drawable (roomWidth style container) measures := by
  have hsome := measured_of_width h
  have hmargin := (isFinite_of_width h).2
  obtain ⟨c, hc⟩ := exists_mem_complexities style measures
  have hbase := baseWidth_mem hc
  have hone := one_le_of_mem_complexities hc
  obtain ⟨hleast, hunit⟩ := not_limit_of_isFinite_larger (isFinite_baseWidth h hc)
  refine ⟨hmargin, hsome, hleast, fun hlimit => hunit ?_, fun hdensity => ?_, fun hroom => ?_⟩
  -- a unit that is infinite makes every product infinite, since no complexity is below one
  · exact hlimit.of_limit_le (unit_le_mul hchecked hone hlimit.isNaN)
  · by_contra hneither
    push Not at hneither
    obtain ⟨hnumber, m, hm, hnotes⟩ := hneither
    have hinfinite := (complexity_of_limit hdensity hnotes).limit_mul
      (unit_pos hchecked (Bool.eq_false_iff.mpr hnumber))
    exact (not_limit_of_isFinite_larger (isFinite_baseWidth h (complexity_mem hm))).2 hinfinite.1
  -- what is drawn is not narrower than the bases, so these have a finite sum
  · have hsumPos := sum_baseWidths_pos hchecked hsome hbase
    have hsum : (Scalar.sum (baseWidths style measures)).isFinite = true :=
      isFinite_of_le (float_le_of_lt hsumPos.2) (sum_baseWidths_le hchecked hsome)
        (isFinite_of_add h).1
    have hscale := scale_of_limit hroom (isFinite_of_add h).2 hsum hsumPos.2
    have hwidth := (isFinite_of_width h).1 _ (mem_measureWidths hbase)
    exact not_standsAt_limit_of_isFinite (isFinite_of_mul hwidth).2 hscale

/-! ## 6. What is enough

Of ordinary settings complexities are bounded by `2 ^ 265`, base widths by `2 ^ 465` and their sum by
`2 ^ 519`, the factor by `2 ^ 402`, the widths of the measures by `2 ^ 867` and their sum by
`2 ^ 921`, which is far below the end of the format. -/

/-- No number, infinite, nothing, or neither too small nor too large to be worked with. -/
def Ordinary (x : Float) : Prop :=
  ∀ q, StandsAt x q → |q| < limit → q = 0 ∨ 2 ^ (-200 : ℤ) ≤ |q| ∧ |q| ≤ 2 ^ (200 : ℤ)

theorem Ordinary.bounded {x : Float} (h : Ordinary x) (hx : x.isFinite = true) :
    Bounded 200 x := by
  obtain ⟨q, hq, hlt⟩ := exists_standsAt_of_isFinite hx
  refine ⟨q, hq, ?_⟩
  rcases h q hq hlt with rfl | ⟨-, hle⟩
  · rw [abs_zero]
    positivity
  · exact hle

/-- What is larger than an ordinary number is not too small. -/
theorem Ordinary.le_of_le {x y : Float} (h : Ordinary x) (hpos : 0 < x) (hx : x.isFinite = true)
    (hle : x ≤ y) {q : ℚ} (hq : StandsAt y q) : 2 ^ (-200 : ℤ) ≤ q := by
  obtain ⟨p, hp, hlt⟩ := exists_standsAt_of_isFinite hx
  have hp0 : 0 < p := (standsAt_zero.lt_iff hp).mp hpos
  have hlow := ((h p hp hlt).resolve_left hp0.ne').1
  rw [abs_of_pos hp0] at hlow
  exact hlow.trans ((hp.le_iff hq).mp hle)

/-- The settings that widths are made of are ordinary. -/
structure OrdinaryStyle (style : StaffStyle Float) : Prop where
  margin : Ordinary style.marginX
  least : Ordinary style.minMeasureWidth
  unit : Ordinary style.pixelsPerComplexityUnit
  density : Ordinary style.densityWeight

theorem bounded_one : Bounded 0 (Scalar.ofNat 1 : Float) :=
  ⟨(1 : ℕ), (denotes_ofNat (by decide)).standsAt, by norm_num⟩

theorem bounded_margins (hordinary : OrdinaryStyle style) (h : style.marginX.isFinite = true) :
    Bounded 201 (Scalar.ofNat 2 * style.marginX) := by
  have htwo : Bounded 1 (Float.ofNat 2) :=
    ⟨(2 : ℕ), (denotes_ofNat (by decide)).standsAt, by norm_num⟩
  exact htwo.mul (hordinary.margin.bounded h) (by norm_num) (by norm_num) (by norm_num)
    (by norm_num)

theorem bounded_ofNat {n : ℕ} (hn : n < 2 ^ 64) : Bounded 64 (Float.ofNat n) := by
  obtain ⟨w, hw, hstands⟩ := exists_standsAt_ofNat n
  refine bounded_of_nearest hw hstands ?_ (by norm_num) (by norm_num)
  rw [abs_of_nonneg (Nat.cast_nonneg n)]
  exact_mod_cast hn.le

/-- A weight that is never the larger leaves the complexity one. -/
theorem bounded_complexity_of_sunk {m : Measure}
    (h : Sunk (style.densityWeight * Scalar.ofNat m.notes.length)) :
    Bounded 265 (complexity style m) := by
  have htotal := (totalBeats_nonneg_bounded m.notes).2.isFinite (by norm_num)
  have hone : complexity style m = Scalar.ofNat 1 :=
    (h.add htotal).largerFloat_eq (isNaN_of_isFinite (bounded_one.isFinite (by norm_num)))
  rw [hone]
  exact bounded_one.mono (by norm_num)

theorem bounded_complexity (hdensity : Ordinary style.densityWeight) {m : Measure}
    (hweight : StandsAt style.densityWeight limit → m.notes = [])
    (hnotes : m.notes.length < 2 ^ 64) : Bounded 265 (complexity style m) := by
  have hcount : 0 ≤ Float.ofNat m.notes.length := ofNat_le_ofNat (Nat.zero_le _)
  by_cases hlimit : StandsAt style.densityWeight limit
  · apply bounded_complexity_of_sunk
    rw [hweight hlimit]
    exact Sunk.limit_mul_zero hlimit
  · rcases sunk_or_isFinite hlimit with hsunk | hfinite
    · exact bounded_complexity_of_sunk (hsunk.mul hcount)
    · have hproduct := (hdensity.bounded hfinite).mul (bounded_ofNat hnotes) (by norm_num)
        (by norm_num) (by norm_num) (by norm_num)
      have htotal := (totalBeats_nonneg_bounded m.notes).2.mono (by norm_num : (56 : ℤ) ≤ 264)
      have hsum := htotal.add hproduct (by norm_num) (by norm_num)
      exact hsum.larger (bounded_one.mono (by norm_num))

section

variable (hchecked : style.Checked)
  (hdrawable : style.Drawable (roomWidth style container) measures)
include hchecked hdrawable

theorem isFinite_least (h : style.minMeasureWidth.isNaN = false) :
    style.minMeasureWidth.isFinite = true :=
  isFinite_of_pos hdrawable.least (least_pos hchecked h)

theorem isFinite_unit (h : style.pixelsPerComplexityUnit.isNaN = false) :
    style.pixelsPerComplexityUnit.isFinite = true :=
  isFinite_of_pos hdrawable.unit (unit_pos hchecked h)

variable (hordinary : OrdinaryStyle style)
include hordinary

theorem bounded_baseWidth
    (hc : style.pixelsPerComplexityUnit.isNaN = false → Bounded 265 c) :
    Bounded 465 (baseWidth style c) := by
  have hproduct (hunit : style.pixelsPerComplexityUnit.isNaN = false) :
      Bounded 465 (c * style.pixelsPerComplexityUnit) :=
    (hc hunit).mul (hordinary.unit.bounded (isFinite_unit hchecked hdrawable hunit))
      (by norm_num) (by norm_num) (by norm_num) (by norm_num)
  by_cases hleast : style.minMeasureWidth.isNaN = true
  · rw [show baseWidth style c = _ from largerFloat_of_isNaN hleast]
    exact hproduct (Bool.eq_false_iff.mpr fun hunit => hdrawable.measured ⟨hleast, hunit⟩)
  · rw [Bool.not_eq_true] at hleast
    have hbound := (hordinary.least.bounded
      (isFinite_least hchecked hdrawable hleast)).mono (by norm_num : (200 : ℤ) ≤ 465)
    by_cases hunit : style.pixelsPerComplexityUnit.isNaN = true
    -- a number is not below what is no number, and so it is taken
    · have hnan : (c * style.pixelsPerComplexityUnit).isNaN = true := isNaN_mul_right hunit
      have hnot : ¬style.minMeasureWidth ≤ c * style.pixelsPerComplexityUnit := fun hle => by
        rw [(isNaN_eq_false_of_le hle).2] at hnan
        cases hnan
      rw [show baseWidth style c = _ from largerFloat_of_not_le hleast hnot]
      exact hbound
    · rw [Bool.not_eq_true] at hunit
      exact hbound.larger (hproduct hunit)

theorem bounded_of_mem_baseWidths (hnotes : ∀ m ∈ measures, m.notes.length < 2 ^ 64)
    {base : Float} (hbase : base ∈ baseWidths style measures) : Bounded 465 base := by
  obtain ⟨c, hc, rfl⟩ := exists_of_mem_baseWidths hbase
  refine bounded_baseWidth hchecked hdrawable hordinary fun hunit => ?_
  rcases complexities_cases hc with rfl | ⟨m, hm, rfl⟩
  · exact bounded_one.mono (by norm_num)
  · refine bounded_complexity hordinary.density (fun hlimit => ?_) (hnotes m hm)
    exact (hdrawable.density hlimit).resolve_left (Bool.eq_false_iff.mp hunit) m hm

/-- The sum of the widths is not too small to divide by. -/
theorem le_sum_baseWidths {q : ℚ} (hq : StandsAt (Scalar.sum (baseWidths style measures)) q) :
    2 ^ (-200 : ℤ) ≤ q := by
  obtain ⟨c, hc⟩ := exists_mem_complexities style measures
  have hle := (sum_baseWidths_pos hchecked hdrawable.measured (baseWidth_mem hc)).1
  have hlower := le_baseWidth hchecked (one_le_of_mem_complexities hc) hdrawable.measured
  rcases hlower with ⟨hnumber, hbase⟩ | ⟨hnumber, hbase⟩
  · exact hordinary.least.le_of_le (least_pos hchecked hnumber)
      (isFinite_least hchecked hdrawable hnumber) (float_le_trans hbase hle) hq
  · exact hordinary.unit.le_of_le (unit_pos hchecked hnumber)
      (isFinite_unit hchecked hdrawable hnumber) (float_le_trans hbase hle) hq

variable (hroom : Ordinary (roomWidth style container))
  (hnotes : ∀ m ∈ measures, m.notes.length < 2 ^ 64)
include hroom hnotes

theorem bounded_scale : Bounded 402 (scale style container measures) := by
  obtain ⟨c, hc⟩ := exists_mem_complexities style measures
  have hpos := (sum_baseWidths_pos hchecked hdrawable.measured (baseWidth_mem hc)).2
  have hsum : Bounded 519 (Scalar.sum (baseWidths style measures)) :=
    bounded_sum 465 (by norm_num) (by norm_num) fun x hx =>
      ⟨float_le_of_lt (baseWidths_pos hchecked hdrawable.measured hx),
        bounded_of_mem_baseWidths hchecked hdrawable hordinary hnotes hx⟩
  have hmargins := bounded_margins hordinary hdrawable.margin
  rcases sunk_or_isFinite hdrawable.room with hsunk | hfinite
  -- without any room the measures are not stretched
  · have hone : scale style container measures = Scalar.ofNat 1 :=
      ((hsunk.sub (hmargins.isFinite (by norm_num))).div hpos).largerFloat_eq
        (isNaN_of_isFinite (bounded_one.isFinite (by norm_num)))
    rw [hone]
    exact bounded_one.mono (by norm_num)
  · have hfree := ((hroom.bounded hfinite).mono (by norm_num : (200 : ℤ) ≤ 201)).sub hmargins
      (by norm_num) (by norm_num)
    obtain ⟨q, hq, hqlt⟩ := exists_standsAt_of_isFinite (hsum.isFinite (by norm_num))
    have hquotient := hfree.div hq (le_sum_baseWidths hchecked hdrawable hordinary hq)
      (lt_of_abs_lt hqlt) (by norm_num) (by norm_num) (by norm_num)
    exact hquotient.larger (bounded_one.mono (by norm_num))

/-- With ordinary settings nothing becomes too large. -/
theorem isFinite_width : (geometry style container measures).width.isFinite = true := by
  have hscale := bounded_scale hchecked hdrawable hordinary hroom hnotes
  have hwidths : ∀ w ∈ (geometry style container measures).measureWidths,
      0 ≤ w ∧ Bounded 867 w := by
    intro w hw
    refine ⟨float_le_of_lt (pos_of_measured hchecked hdrawable.measured hw), ?_⟩
    obtain ⟨base, hbase, rfl⟩ := exists_base hw
    have hbound := bounded_of_mem_baseWidths hchecked hdrawable hordinary hnotes hbase
    have hproduct := hbound.mul hscale (by norm_num) (by norm_num) (by norm_num) (by norm_num)
    exact hproduct
  have hcontent := bounded_sum 867 (by norm_num) (by norm_num) hwidths
  have hmargins := (bounded_margins hordinary hdrawable.margin).mono (by norm_num : (201 : ℤ) ≤ 921)
  exact (hcontent.add hmargins (by norm_num) (by norm_num)).isFinite (by norm_num)

end

/-! ## 7. The standard style -/

/-- What lies between a thousandth and a thousand is ordinary. -/
theorem ordinary_of_le {x : Float} (hlow : Float.ofNat 1 / Float.ofNat 1024 ≤ x)
    (hhigh : x ≤ Float.ofNat 1024) : Ordinary x := by
  have hmany : Denotes (Float.ofNat 1024) (1024 : ℕ) := denotes_ofNat (by decide)
  have hpart : Denotes (Float.ofNat 1 / Float.ofNat 1024) ((1 : ℕ) / (1024 : ℕ)) := by
    refine (denotes_ofNat (by decide)).div hmany (by norm_num) ?_
    exact ⟨1, 10, by decide, by decide, by norm_num⟩
  intro q hq _
  have hlow' := (hpart.standsAt.le_iff hq).mp hlow
  have hhigh' := (hq.le_iff hmany.standsAt).mp hhigh
  have hq0 : 0 ≤ q := le_trans (by positivity) hlow'
  rw [abs_of_nonneg hq0]
  refine .inr ⟨le_trans ?_ hlow', hhigh'.trans ?_⟩
  · norm_num
  · norm_num

theorem ordinary_standard : OrdinaryStyle .standard where
  margin := ordinary_of_le (by decide +kernel) (by decide +kernel)
  least := ordinary_of_le (by decide +kernel) (by decide +kernel)
  unit := ordinary_of_le (by decide +kernel) (by decide +kernel)
  density := ordinary_of_le (by decide +kernel) (by decide +kernel)

/-- Every document can be drawn in the standard style, whatever the room, unless it is too large. -/
theorem usable_standard {container : Float} (hcontainer : Ordinary container)
    {measures : List Measure} (hnotes : ∀ m ∈ measures, m.notes.length < 2 ^ 64) :
    (geometry .standard container measures).Usable := by
  have hchecked : StaffStyle.standard.Checked := (Config.check_eq_ok Config.check_standard).2
  have hroom : Ordinary (roomWidth .standard container) ∧
      (roomWidth .standard container).isFinite = true := by
    unfold roomWidth
    split
    next hpositive =>
      exact ⟨hcontainer, (Bool.and_eq_true_iff.mp hpositive).1⟩
    next => exact ⟨ordinary_of_le (by decide +kernel) (by decide +kernel), by decide +kernel⟩
  have hnot {x : Float} (hx : x.isFinite = true) : ¬StandsAt x limit :=
    not_standsAt_limit_of_isFinite hx
  have hdrawable : StaffStyle.standard.Drawable (roomWidth .standard container) measures := {
    margin := by decide +kernel
    measured := by
      rintro ⟨hnan, -⟩
      exact absurd hnan (by decide +kernel)
    least := hnot (by decide +kernel)
    unit := hnot (by decide +kernel)
    density := fun hlimit => absurd hlimit (hnot (by decide +kernel))
    room := hnot hroom.2 }
  exact (usable_iff_width hchecked).mpr
    (isFinite_width hchecked hdrawable ordinary_standard hroom.1 hnotes)

/-! ## 8. Checked configurations -/

/-- Whatever a checked configuration, a document and the room for it are, either both widths of the
style are no numbers and no measure has a width, or every measure has one above zero; and the width
of the staff tells whether all of it can be drawn.  It cannot with settings that are infinite.  With
ordinary settings that is all that can be wrong. -/
theorem checked_geometry {config : Config} (h : config.check = .ok config) (container : Float)
    (measures : List Measure) :
    let style := config.layout
    let room := roomWidth style container
    let g := geometry style container measures
    (style.Unmeasured → ∀ w ∈ g.measureWidths, w.isNaN = true) ∧
      (¬style.Unmeasured → ∀ w ∈ g.measureWidths, 0 < w) ∧
      (g.Usable ↔ g.width.isFinite = true) ∧
      (g.Usable → style.Drawable room measures) ∧
      (OrdinaryStyle style → Ordinary room → (∀ m ∈ measures, m.notes.length < 2 ^ 64) →
        (g.Usable ↔ style.Drawable room measures)) := by
  intro style room g
  have hchecked : style.Checked := (Config.check_eq_ok h).2
  have husable : g.Usable ↔ g.width.isFinite = true := usable_iff_width hchecked
  have hneeded (hg : g.Usable) : style.Drawable room measures := drawable_of_width hchecked hg.width
  refine ⟨fun hnan w => isNaN_of_unmeasured hnan, fun hsome w => pos_of_measured hchecked hsome,
    husable, hneeded, fun hordinary hroom hnotes => ⟨hneeded, fun hdrawable => ?_⟩⟩
  exact husable.mpr (isFinite_width hchecked hdrawable hordinary hroom hnotes)

/-- Two widths that are no numbers. -/
def unmeasuredText : String :=
  "layout:\n  min-measure-width: .nan\n  pixels-per-complexity-unit: .nan\n"

/-- They are accepted, but nothing can be drawn with them. -/
theorem unmeasured_is_accepted :
    ∃ config, Config.ofText unmeasuredText = .ok config ∧ config.check = .ok config ∧
      ∀ container measures, ¬(geometry config.layout container measures).Usable := by
  have hread : (match Config.ofText unmeasuredText with
      | .ok config => config.layout.minMeasureWidth.isNaN &&
          config.layout.pixelsPerComplexityUnit.isNaN
      | .error _ => false) = true := by
    decide +kernel
  split at hread
  next config hconfig =>
    have hcheck := Config.check_of_ofText hconfig
    refine ⟨config, hconfig, hcheck, fun container measures husable => ?_⟩
    obtain ⟨-, -, -, hneeded, -⟩ := checked_geometry hcheck container measures
    exact (hneeded husable).measured (Bool.and_eq_true_iff.mp hread)
  next => cases hread

end Staff

end TextScore

import Mathlib
import TextScore.Proofs.Schedule.Clock
import TextScore.Staff

/-!
# Stretch — how the measures of a staff share the room

Over the rationals nothing is rounded.  All measures grow by one factor that is never below one: it
is the one that fills the room between the margins where the measures are narrower than that, and
one where they are not.  The measures stand side by side, and nothing is left between them.
-/

namespace TextScore

/-! ## 1. Widths before they are stretched -/

namespace Staff

variable (style : StaffStyle ℚ) (measures : List Measure)

/-- The least width, or that of the complexity if it is larger. -/
def exactBase (complexity : ℚ) : ℚ :=
  max style.minMeasureWidth (complexity * style.pixelsPerComplexityUnit)

/-- The beats of a measure and something for each note, but never less than one. -/
def exactComplexity (m : Measure) : ℚ :=
  max (totalBeats m.notes + style.densityWeight * m.notes.length) 1

/-- A width for each measure, and that of complexity one for a document without measures. -/
def exactBases : List ℚ :=
  match measures with
  | [] => [exactBase style 1]
  | m :: rest => (m :: rest).map fun m => exactBase style (exactComplexity style m)

theorem baseWidths_rat : baseWidths style measures = exactBases style measures := by
  unfold baseWidths exactBases
  cases measures with
  | nil => rfl
  | cons m rest => rfl

theorem exactBases_ne_nil : exactBases style measures ≠ [] := by
  cases measures with
  | nil => exact List.cons_ne_nil _ _
  | cons m rest => exact List.cons_ne_nil _ _

variable {style measures}

theorem minMeasureWidth_le_of_mem {base : ℚ} (h : base ∈ exactBases style measures) :
    style.minMeasureWidth ≤ base := by
  cases measures with
  | nil =>
    obtain rfl := List.mem_singleton.mp h
    exact le_max_left _ _
  | cons m rest =>
    obtain ⟨m', -, rfl⟩ := List.mem_map.mp h
    exact le_max_left _ _

theorem sum_exactBases_pos (hmin : 0 < style.minMeasureWidth) :
    0 < (exactBases style measures).sum :=
  List.sum_pos _ (fun _ hbase => hmin.trans_le (minMeasureWidth_le_of_mem hbase))
    (exactBases_ne_nil style measures)

/-! ## 2. The factor -/

/-- The factor that fills the room between the margins, or one if that would shrink the measures. -/
theorem stretch_rat (room : ℚ) (bases : List ℚ) :
    stretch style room bases = max ((room - 2 * style.marginX) / bases.sum) 1 := by
  unfold stretch
  rw [Scalar.sum_rat]
  rfl

variable {room : ℚ} {bases : List ℚ}

theorem stretch_mul_sum_of_le (hpos : 0 < bases.sum) (h : bases.sum ≤ room - 2 * style.marginX) :
    bases.sum * stretch style room bases = room - 2 * style.marginX := by
  have hfactor : 1 ≤ (room - 2 * style.marginX) / bases.sum := (one_le_div hpos).mpr h
  rw [stretch_rat, max_eq_left hfactor, mul_div_cancel₀ _ hpos.ne']

theorem stretch_of_lt (hpos : 0 < bases.sum) (h : room - 2 * style.marginX < bases.sum) :
    stretch style room bases = 1 := by
  have hfactor : (room - 2 * style.marginX) / bases.sum ≤ 1 := ((div_lt_one hpos).mpr h).le
  rw [stretch_rat, max_eq_right hfactor]

end Staff

/-! ## 3. Measures side by side -/

/-- The measures stand side by side from one margin to the other. -/
structure StaffGeometry.Tiled (g : StaffGeometry ℚ) : Prop where
  first : g.measureX? 0 = some g.leftMargin
  next : ∀ (i : ℕ) (x w : ℚ), g.measureX? i = some x → g.measureWidths[i]? = some w →
    i + 1 < g.measureWidths.length → g.measureX? (i + 1) = some (x + w)
  last : ∀ (i : ℕ) (x w : ℚ), g.measureX? i = some x → g.measureWidths[i]? = some w →
    i + 1 = g.measureWidths.length → x + w + g.leftMargin = g.width

namespace StaffGeometry

variable {g : StaffGeometry ℚ} {i : ℕ} {x w : ℚ}

theorem measureX?_rat (h : i < g.measureWidths.length) :
    g.measureX? i = some (g.leftMargin + (g.measureWidths.take i).sum) := by
  unfold measureX?
  rw [if_pos h, Scalar.sum_rat]

/-- A measure ends where the widths up to its own are used up. -/
theorem right_edge (hx : g.measureX? i = some x) (hw : g.measureWidths[i]? = some w) :
    x + w = g.leftMargin + (g.measureWidths.take (i + 1)).sum := by
  obtain ⟨hi, rfl⟩ := List.getElem?_eq_some_iff.mp hw
  rw [measureX?_rat hi] at hx
  rw [← Option.some.inj hx, List.sum_take_succ _ _ hi, add_assoc]

/-- It is enough that the staff is as wide as its measures and its margins. -/
theorem tiled (hne : g.measureWidths ≠ [])
    (hwidth : g.width = g.measureWidths.sum + 2 * g.leftMargin) : g.Tiled where
  first := by
    rw [measureX?_rat (List.length_pos_iff.mpr hne), List.take_zero, List.sum_nil, add_zero]
  next i x w hx hw hi := by
    rw [measureX?_rat hi, right_edge hx hw]
  last i x w hx hw hi := by
    rw [right_edge hx hw, hi, List.take_length, hwidth]
    ring

end StaffGeometry

/-! ## 4. The staff -/

/-- The measures are stretched by this factor, which fills the room or leaves them as they are. -/
structure StaffGeometry.Stretched (g : StaffGeometry ℚ) (bases : List ℚ) (room scale : ℚ) :
    Prop where
  one_le : 1 ≤ scale
  widths : g.measureWidths = bases.map (scale * ·)
  filled : bases.sum ≤ room - 2 * g.leftMargin → g.width = room
  overfull : room - 2 * g.leftMargin < bases.sum → scale = 1 ∧ room < g.width

namespace Staff

variable {style : StaffStyle ℚ} {container : ℚ} {measures : List Measure}

theorem measureWidths_rat :
    (geometry style container measures).measureWidths =
      (exactBases style measures).map
        (stretch style (roomWidth style container) (exactBases style measures) * ·) := by
  unfold geometry
  rw [baseWidths_rat]
  simp only [mul_comm]

theorem width_rat :
    (geometry style container measures).width =
      (geometry style container measures).measureWidths.sum + 2 * style.marginX := by
  rw [← Scalar.sum_rat]
  rfl

theorem sum_measureWidths :
    (geometry style container measures).measureWidths.sum =
      (exactBases style measures).sum *
        stretch style (roomWidth style container) (exactBases style measures) := by
  rw [measureWidths_rat, List.sum_map_mul_left, List.map_id', mul_comm]

theorem stretched_geometry (hmin : 0 < style.minMeasureWidth) :
    (geometry style container measures).Stretched (exactBases style measures)
      (roomWidth style container)
      (stretch style (roomWidth style container) (exactBases style measures)) where
  one_le := by
    rw [stretch_rat]
    exact le_max_right _ _
  widths := measureWidths_rat
  filled hfits := by
    rw [width_rat, sum_measureWidths, stretch_mul_sum_of_le (sum_exactBases_pos hmin) hfits,
      sub_add_cancel]
  overfull hover := by
    have hone := stretch_of_lt (sum_exactBases_pos hmin) hover
    refine ⟨hone, ?_⟩
    rw [width_rat, sum_measureWidths, hone, mul_one]
    exact sub_lt_iff_lt_add.mp hover

theorem tiled_geometry : (geometry style container measures).Tiled := by
  apply StaffGeometry.tiled
  · rw [measureWidths_rat]
    exact mt List.map_eq_nil_iff.mp (exactBases_ne_nil style measures)
  · exact width_rat

/-- A factor that is not below one leaves no measure narrower than it was. -/
theorem base_le_width (hmin : 0 < style.minMeasureWidth) {i : ℕ} {base width : ℚ}
    (hbase : (exactBases style measures)[i]? = some base)
    (hwidth : (geometry style container measures).measureWidths[i]? = some width) :
    base ≤ width ∧ style.minMeasureWidth ≤ width := by
  have hstretched : (geometry style container measures).Stretched (exactBases style measures) _ _ :=
    stretched_geometry hmin
  rw [hstretched.widths, List.getElem?_map, hbase] at hwidth
  obtain rfl := Option.some.inj hwidth
  have hleast : style.minMeasureWidth ≤ base :=
    minMeasureWidth_le_of_mem (List.mem_of_getElem? hbase)
  have hgrown :
      base ≤ stretch style (roomWidth style container) (exactBases style measures) * base :=
    le_mul_of_one_le_left (hmin.le.trans hleast) hstretched.one_le
  exact ⟨hgrown, hleast.trans hgrown⟩

/-- Whatever room a document is drawn in, its measures are stretched by one factor, which fills the
room, or is one if they need more.  None becomes narrower than it was or than the least width, and
they stand side by side from one margin to the other. -/
theorem geometry_shares_room (hmin : 0 < style.minMeasureWidth) (container : ℚ)
    (measures : List Measure) :
    let room := if 0 < container then container else style.fallbackWidth
    let g := geometry style container measures
    g.leftMargin = style.marginX ∧
      (∃ scale, g.Stretched (exactBases style measures) room scale) ∧
      (∀ (i : ℕ) (base width : ℚ), (exactBases style measures)[i]? = some base →
        g.measureWidths[i]? = some width → base ≤ width ∧ style.minMeasureWidth ≤ width) ∧
      g.Tiled := by
  intro room g
  have hroom : roomWidth style container = room := by
    unfold roomWidth
    simp only [room, Scalar.isPositive, decide_eq_true_eq]
  refine ⟨rfl, ⟨_, hroom ▸ stretched_geometry hmin⟩, fun i base width => base_le_width hmin,
    tiled_geometry⟩

/-- The standard style, without rounding. -/
def exactStyle : StaffStyle ℚ := ⟨260, 10, 40, 80, 60, 700, 3 / 10⟩

def twoWholes : List Measure :=
  [⟨⟨1⟩, .common, [⟨⟨1⟩, .pitched ⟨.C, .natural, 4⟩, .whole⟩]⟩,
    ⟨⟨2⟩, .common, [⟨⟨2⟩, .rest, .whole⟩]⟩]

/-- In a wide room two measures fill it, in a narrow one they need more. -/
theorem twoWholes_share_room :
    0 < exactStyle.minMeasureWidth ∧ exactBases exactStyle twoWholes = [258, 258] ∧
      (geometry exactStyle 1000 twoWholes).width = 1000 ∧
      (geometry exactStyle 1000 twoWholes).measureX? 0 = some 10 ∧
      (geometry exactStyle 300 twoWholes).measureWidths = [258, 258] ∧
      300 < (geometry exactStyle 300 twoWholes).width := by
  have hmin : 0 < exactStyle.minMeasureWidth := by norm_num [exactStyle]
  have hbases : exactBases exactStyle twoWholes = [258, 258] := by
    norm_num [exactBases, exactBase, exactComplexity, exactStyle, twoWholes, totalBeats,
      Scalar.sum_rat, Duration.beats, Duration.sixteenths]
  obtain ⟨-, ⟨_, hwide⟩, -, htiled⟩ := geometry_shares_room hmin 1000 twoWholes
  obtain ⟨-, ⟨scale, hnarrow⟩, -⟩ := geometry_shares_room hmin 300 twoWholes
  rw [hbases] at hwide hnarrow
  have hmargin : ∀ container, (geometry exactStyle container twoWholes).leftMargin = 10 :=
    fun _ => rfl
  have hover := hnarrow.overfull (by rw [hmargin]; norm_num)
  refine ⟨hmin, hbases, ?_, htiled.first, ?_, ?_⟩
  · have hfilled := hwide.filled (by rw [hmargin]; norm_num)
    rwa [if_pos (by norm_num)] at hfilled
  · rw [hnarrow.widths, hover.1]
    norm_num
  · have hwider := hover.2
    rwa [if_pos (by norm_num)] at hwider

end Staff

end TextScore

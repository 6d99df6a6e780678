import Mathlib
import TextScore.Proofs.Decimal.Written
import TextScore.Proofs.Notation.Coherence

/-!
# Fullness — whether a measure is full is decided exactly

The notes of a measure add up without rounding, and so does the figure of a warning.  Only the
capacity is rounded, where the beat type is no power of two; what it is off by is far less than the
tolerance, and a misfit of one sixteenth is far more.  So the tolerance decides as exact arithmetic
would, for every signature whose beat type is not beyond a hundred thousand.
-/

namespace TextScore.Notation

open Decimal

/-! ## 1. Notes add up exactly -/

/-- The length of the notes in sixteenths. -/
def sixteenths (notes : List (NoteKind × Duration)) : ℕ :=
  (notes.map fun note => note.2.sixteenths).sum

theorem sixteenths_le_sixteen (d : Duration) : d.sixteenths ≤ 16 := by
  cases d <;> decide

theorem fits_quarters {n : ℕ} (hn : n < 2 ^ 53) : Fits ((n : ℚ) / 4) :=
  ⟨n, 2, hn, by decide, by norm_num⟩

theorem denotes_beats (d : Duration) : Denotes d.beats ((d.sixteenths : ℚ) / 4) := by
  have hle := sixteenths_le_sixteen d
  have hnum : Denotes (Float.ofNat d.sixteenths) d.sixteenths := denotes_ofNat (by omega)
  have hden : Denotes (Float.ofNat 4) (4 : ℕ) := denotes_ofNat (by decide)
  exact hnum.div hden (by norm_num) (fits_quarters (by omega))

theorem denotes_foldl {notes : List (NoteKind × Duration)} {start : Float} {n : ℕ}
    (hstart : Denotes start ((n : ℚ) / 4)) (hn : n + sixteenths notes < 2 ^ 53) :
    Denotes ((notes.map fun note => (note.2.beats : Float)).foldl (· + ·) start)
      (((n + sixteenths notes : ℕ) : ℚ) / 4) := by
  induction notes generalizing start n with
  | nil => exact hstart
  | cons note rest ih =>
    have hsum : n + sixteenths (note :: rest) = n + note.2.sixteenths + sixteenths rest := by
      unfold sixteenths
      rw [List.map_cons, List.sum_cons, Nat.add_assoc]
    rw [hsum] at hn ⊢
    rw [List.map_cons, List.foldl_cons]
    apply ih _ hn
    -- each partial sum fits
    have hstep : (n : ℚ) / 4 + (note.2.sixteenths : ℚ) / 4 =
        ((n + note.2.sixteenths : ℕ) : ℚ) / 4 := by
      push_cast
      ring
    rw [← hstep]
    apply hstart.add (denotes_beats note.2)
    rw [hstep]
    exact fits_quarters (by omega)

theorem denotes_total {notes : List (NoteKind × Duration)} (h : sixteenths notes < 2 ^ 53) :
    Denotes (Scalar.sum (notes.map fun note => (note.2.beats : Float)))
      ((sixteenths notes : ℚ) / 4) := by
  -- sums start at negative zero, which denotes nothing as well
  have hnothing : Denotes (-0.0) (((0 : ℕ) : ℚ) / 4) := by
    rw [Nat.cast_zero, zero_div]
    exact .zero .negative
  have htotal := denotes_foldl hnothing (by rwa [Nat.zero_add])
  rwa [Nat.zero_add] at htotal

/-! ## 2. The capacity -/

theorem moderate_of_bounds {v : ℚ} (hlow : 1 / 2 ^ 40 ≤ |v|) (hhigh : |v| < 2 ^ 40) :
    Moderate v := by
  constructor
  · calc (2 : ℚ) ^ (-1000 : ℤ) ≤ 2 ^ (-40 : ℤ) :=
        zpow_le_zpow_right₀ (by norm_num) (by norm_num)
      _ = 1 / 2 ^ 40 := by norm_num
      _ ≤ |v| := hlow
  · calc |v| < 2 ^ 40 := hhigh
      _ = 2 ^ (40 : ℤ) := by norm_num
      _ ≤ 2 ^ (1000 : ℤ) := zpow_le_zpow_right₀ (by norm_num) (by norm_num)

theorem capacity_bounds {b t : ℕ} (hb : 0 < b) (hb' : b < 2 ^ 32) (ht : 0 < t) (ht' : t < 2 ^ 32) :
    (1 : ℚ) / 2 ^ 32 ≤ 4 * b / t ∧ 4 * (b : ℚ) / t < 2 ^ 34 := by
  have hone : (1 : ℚ) ≤ b := by exact_mod_cast hb
  have hone' : (1 : ℚ) ≤ t := by exact_mod_cast ht
  have hlt : (b : ℚ) < 2 ^ 32 := by exact_mod_cast hb'
  have hlt' : (t : ℚ) < 2 ^ 32 := by exact_mod_cast ht'
  constructor
  · gcongr
    linarith
  · calc 4 * (b : ℚ) / t ≤ 4 * b / 1 := by gcongr
      _ < 2 ^ 34 := by norm_num; linarith

theorem within_capacity {b t : ℕ} (hb : 0 < b) (hb' : b < 2 ^ 32) (ht : 0 < t)
    (ht' : t < 2 ^ 32) : Within (4 * b / t) := by
  obtain ⟨hlow, hhigh⟩ := capacity_bounds hb hb' ht ht'
  have hvalue : (0 : ℚ) ≤ 4 * b / t := by positivity
  right
  apply moderate_of_bounds
  · rw [abs_of_nonneg hvalue]
    norm_num at hlow ⊢
    linarith
  · rw [abs_of_nonneg hvalue]
    norm_num at hhigh ⊢
    linarith

/-- The capacity is rounded once, in the last division. -/
theorem exists_denotes_capacity {signature : TimeSignature} (h : signature.Positive) :
    ∃ c, Denotes signature.capacity c ∧
      Rounds (4 * signature.beats.toNat / signature.beatType.toNat) c := by
  obtain ⟨hb, ht⟩ : 0 < signature.beats.toNat ∧ 0 < signature.beatType.toNat := h
  have hb' : signature.beats.toNat < 2 ^ 32 := signature.beats.toNat_lt
  have ht' : signature.beatType.toNat < 2 ^ 32 := signature.beatType.toNat_lt
  have hbeats : Denotes (Float.ofNat signature.beats.toNat) signature.beats.toNat :=
    denotes_ofNat (by omega)
  have htype : Denotes (Float.ofNat signature.beatType.toNat) signature.beatType.toNat :=
    denotes_ofNat (by omega)
  have hfour : Denotes (Float.ofNat 4) (4 : ℕ) := denotes_ofNat (by decide)
  have hproduct : (signature.beats.toNat : ℚ) * (4 : ℕ) = 4 * signature.beats.toNat := by
    push_cast
    ring
  have hfits : Fits (4 * (signature.beats.toNat : ℚ)) := by
    have hwhole := fits_natCast (show 4 * signature.beats.toNat < 2 ^ 53 by omega)
    rwa [Nat.cast_mul] at hwhole
  have hne : (signature.beatType.toNat : ℚ) ≠ 0 := by exact_mod_cast ht.ne'
  have hnum := hbeats.mul hfour (by rwa [hproduct])
  rw [hproduct] at hnum
  exact hnum.exists_div htype hne (within_capacity hb hb' ht ht')

/-! ## 3. The gap

A misfit is at least one part in four hundred thousand, and rounding takes little of it.
-/

section

variable {b t k : ℕ} {c : ℚ} (ht : 0 < t) (hc : Rounds (4 * b / t) c)
include ht

/-- In exact numbers the difference is that of the products, over four beat types. -/
theorem sub_capacity_eq : (k : ℚ) / 4 - 4 * b / t = (k * t - 16 * b) / (4 * t) := by
  field_simp
  ring

theorem part_le (ht' : t ≤ 100000) : (25 : ℚ) / 10 ^ 7 ≤ 1 / (4 * t) := by
  have hpos : (0 : ℚ) < t := by exact_mod_cast ht
  have hle : (t : ℚ) ≤ 100000 := by exact_mod_cast ht'
  rw [div_le_div_iff₀ (by norm_num) (by positivity)]
  linarith

include hc

theorem capacity_near : |c - 4 * b / t| ≤ 4 * b / t / 2 ^ 53 := by
  have hvalue : (0 : ℚ) ≤ 4 * b / t := by positivity
  have hnear := hc.near
  rwa [abs_of_nonneg hvalue] at hnear

theorem eq_capacity (hk : k < 1000000) (hfull : k * t = 16 * b) : c = k / 4 := by
  have hfull' : (k : ℚ) * t = 16 * b := by exact_mod_cast hfull
  have hsame : 4 * (b : ℚ) / t = k / 4 := by
    have hdiff := sub_capacity_eq (b := b) (k := k) ht
    rw [hfull', sub_self, zero_div] at hdiff
    linarith
  rw [hsame] at hc
  exact hc.exact (fits_quarters (by omega)).short

theorem add_gap_le_capacity (ht' : t ≤ 100000) (hk : k < 1000000) (hunder : k * t < 16 * b) :
    (k : ℚ) / 4 + 2 / 10 ^ 6 ≤ c := by
  have hpos : (0 : ℚ) < t := by exact_mod_cast ht
  have hk' : (k : ℚ) < 1000000 := by exact_mod_cast hk
  have hunder' : (k : ℚ) * t + 1 ≤ 16 * b := by exact_mod_cast Nat.succ_le_of_lt hunder
  have hpart := part_le ht ht'
  have hgap : (1 : ℚ) / (4 * t) ≤ 4 * b / t - k / 4 := by
    have hflip : 4 * (b : ℚ) / t - k / 4 = (16 * b - k * t) / (4 * t) := by
      rw [← neg_sub, sub_capacity_eq ht, ← neg_div, neg_sub]
    rw [hflip]
    gcongr
    linarith
  have hnear := abs_le.mp (capacity_near ht hc)
  generalize 4 * (b : ℚ) / t = v at *
  rcases le_or_gt v (2 ^ 20) with hsmall | hlarge
  · have htaken : v / 2 ^ 53 ≤ 2 ^ 20 / 2 ^ 53 := by gcongr
    norm_num at htaken hnear ⊢
    linarith
  -- a capacity beyond all notes keeps its distance, however it is rounded
  · norm_num at hlarge hnear ⊢
    linarith

theorem capacity_add_gap_le (ht' : t ≤ 100000) (hk : k < 1000000) (hover : 16 * b < k * t) :
    c + 2 / 10 ^ 6 ≤ (k : ℚ) / 4 := by
  have hpos : (0 : ℚ) < t := by exact_mod_cast ht
  have hk' : (k : ℚ) < 1000000 := by exact_mod_cast hk
  have hover' : 16 * (b : ℚ) + 1 ≤ k * t := by exact_mod_cast Nat.succ_le_of_lt hover
  have hpart := part_le ht ht'
  have hgap : (1 : ℚ) / (4 * t) ≤ k / 4 - 4 * b / t := by
    rw [sub_capacity_eq ht]
    gcongr
    linarith
  have hnear := abs_le.mp (capacity_near ht hc)
  -- here the capacity is less than the notes, so what rounding takes of it is little
  generalize 4 * (b : ℚ) / t = v at *
  norm_num at hnear ⊢
  linarith

theorem gap_le_abs (ht' : t ≤ 100000) (hk : k < 1000000) (hne : k * t ≠ 16 * b) :
    2 / 10 ^ 6 ≤ |(k : ℚ) / 4 - c| := by
  rw [le_abs]
  rcases lt_or_gt_of_ne hne with hunder | hover
  · right
    linarith [add_gap_le_capacity ht hc ht' hk hunder]
  · left
    linarith [capacity_add_gap_le ht hc ht' hk hover]

theorem abs_sub_capacity_lt (hb : 0 < b) (hb' : b < 2 ^ 32) (ht' : t < 2 ^ 32)
    (hk : k < 1000000) : |(k : ℚ) / 4 - c| < 2 ^ 40 := by
  obtain ⟨hlow, hhigh⟩ := capacity_bounds hb hb' ht ht'
  have hk' : (k : ℚ) < 1000000 := by exact_mod_cast hk
  have hnear := abs_le.mp (capacity_near ht hc)
  rw [abs_lt]
  norm_num at hnear hlow hhigh ⊢
  constructor <;> linarith

end

/-! ## 4. The decision -/

/-- The tolerance is a double near a millionth. -/
theorem exists_denotes_tolerance :
    ∃ r : ℚ, Denotes capacityTolerance r ∧ 0 < r ∧ r < 11 / 10 ^ 7 := by
  have hunpack : capacityTolerance.toModel.unpack =
      .finite .positive 4722366482869645 (-72) (by decide) := by rfl
  refine ⟨(4722366482869645 : ℕ) * 2 ^ (-72 : ℤ), ?_, by positivity, by norm_num⟩
  unfold Denotes
  rw [hunpack]
  exact .finite .positive (by decide) ⟨by decide, by decide, by decide, by decide⟩

/-- What a rounded difference says of the numbers that were subtracted, if they are not too near. -/
theorem le_abs_of_rounds {v d : ℚ} (h : Rounds v d) (hv : 2 / 10 ^ 6 ≤ |v|) :
    11 / 10 ^ 7 < |d| := by
  have hnear := h.near
  have htriangle : |v| ≤ |d| + |d - v| := by
    have := abs_sub_abs_le_abs_sub v d
    rw [abs_sub_comm v d] at this
    linarith
  norm_num at hv hnear ⊢
  linarith

/-- Whether the measure is full, and which way it misses, is told as exact numbers would. -/
theorem decides_exactly {signature : TimeSignature} {total : Float} {k : ℕ}
    (hsignature : signature.Positive) (htype : signature.beatType.toNat ≤ 100000)
    (hk : k < 1000000) (htotal : Denotes total ((k : ℚ) / 4)) :
    ((total - signature.capacity).abs ≤ capacityTolerance ↔
        k * signature.beatType.toNat = 16 * signature.beats.toNat) ∧
      (signature.capacity < total ↔
        16 * signature.beats.toNat < k * signature.beatType.toNat) := by
  obtain ⟨c, hcapacity, hc⟩ := exists_denotes_capacity hsignature
  obtain ⟨r, htolerance, hr, hr'⟩ := exists_denotes_tolerance
  obtain ⟨hb, ht⟩ : 0 < signature.beats.toNat ∧ 0 < signature.beatType.toNat := hsignature
  have hsize := abs_sub_capacity_lt ht hc hb signature.beats.toNat_lt signature.beatType.toNat_lt hk
  have hfull := eq_capacity ht hc hk
  have hgap := gap_le_abs ht hc htype hk
  have hwithin : Within ((k : ℚ) / 4 - c) := by
    by_cases heq : k * signature.beatType.toNat = 16 * signature.beats.toNat
    · left
      rw [hfull heq, sub_self]
    · right
      exact moderate_of_bounds (le_trans (by norm_num) (hgap heq)) hsize
  obtain ⟨d, hd, hdiff⟩ := htotal.exists_sub hcapacity hwithin
  rw [hd.abs.le_iff htolerance, hcapacity.lt_iff htotal]
  constructor
  · by_cases heq : k * signature.beatType.toNat = 16 * signature.beats.toNat
    · have hzero : Fits ((k : ℚ) / 4 - c) := by
        rw [hfull heq, sub_self]
        exact fits_natCast (n := 0) (by decide)
      rw [hdiff.exact hzero.short, hfull heq, sub_self, abs_zero]
      exact iff_of_true hr.le heq
    · have hlarge := le_abs_of_rounds hdiff (hgap heq)
      exact iff_of_false (by linarith) heq
  · rcases lt_trichotomy (k * signature.beatType.toNat) (16 * signature.beats.toNat)
      with hunder | heq | hover
    · have hbelow := add_gap_le_capacity ht hc htype hk hunder
      exact iff_of_false (by linarith) (by omega)
    · exact iff_of_false (by rw [hfull heq]; exact lt_irrefl _) (by omega)
    · have habove := capacity_add_gap_le ht hc htype hk hover
      exact iff_of_true (by linarith) hover

/-! ## 5. The figure -/

theorem denotes_million : Denotes 1e6 (1000000 : ℕ) := by
  have hunpack : (1e6 : Float).toModel.unpack =
      .finite .positive 8589934592000000 (-33) (by decide) := by rfl
  have hvalue : ((1000000 : ℕ) : ℚ) =
      signed .positive ((8589934592000000 : ℕ) * 2 ^ (-33 : ℤ)) := by
    rw [signed_positive]
    norm_num
  unfold Denotes
  rw [hunpack, hvalue]
  exact .finite .positive (by decide) ⟨by decide, by decide, by decide, by decide⟩

/-- In beats of the signature the notes are a whole number of sixteenths of a beat. -/
theorem denotes_ownBeats {signature : TimeSignature} {total : Float} {k n : ℕ}
    (hn : k * signature.beatType.toNat = n) (hsmall : n < 2 ^ 53)
    (htotal : Denotes total ((k : ℚ) / 4)) : Denotes (signature.ownBeats total) ((n : ℚ) / 16) := by
  have hlt : signature.beatType.toNat < 2 ^ 32 := signature.beatType.toNat_lt
  have htype : Denotes (Float.ofNat signature.beatType.toNat) signature.beatType.toNat :=
    denotes_ofNat (by omega)
  have hfour : Denotes (Float.ofNat 4) (4 : ℕ) := denotes_ofNat (by decide)
  have hproduct : (k : ℚ) / 4 * signature.beatType.toNat = (n : ℚ) / 4 := by
    rw [← hn]
    push_cast
    ring
  have hown : (n : ℚ) / 4 / (4 : ℕ) = n / 16 := by
    push_cast
    ring
  have hscaled := htotal.mul htype (by rw [hproduct]; exact fits_quarters hsmall)
  rw [hproduct] at hscaled
  have hbeats := hscaled.div hfour (by norm_num)
    (by rw [hown]; exact ⟨n, 4, hsmall, by decide, by norm_num⟩)
  rwa [hown] at hbeats

/-- The nearest millionth to a number of sixteenths is just that number. -/
theorem denotes_toMillionths {x : Float} {n : ℕ} (hn : n < 10 ^ 11)
    (hx : Denotes x ((n : ℚ) / 16)) : Denotes (toMillionths x) ((n : ℚ) / 16) := by
  have hcount : (n : ℚ) / 16 * (1000000 : ℕ) = (n * 62500 : ℕ) := by
    push_cast
    ring
  have hback : ((n * 62500 : ℕ) : ℚ) / (1000000 : ℕ) = n / 16 := by
    push_cast
    ring
  -- a sixteenth is a whole number of millionths
  have hcounted := hx.mul denotes_million (by rw [hcount]; exact fits_natCast (by omega))
  rw [hcount] at hcounted
  have hresult := (hcounted.roundHalfAway (by omega)).div denotes_million (by norm_num)
    (by rw [hback]; exact ⟨n, 4, by omega, by decide, by norm_num⟩)
  rwa [hback] at hresult

/-- A message gives the beats in full. -/
theorem exists_writesDecimal_figure {signature : TimeSignature} {total : Float} {k : ℕ}
    (htype : signature.beatType.toNat ≤ 100000) (hpos : 0 < k * signature.beatType.toNat)
    (hk : k < 1000000) (htotal : Denotes total ((k : ℚ) / 4)) :
    ∃ figure, inMessage (toMillionths (signature.ownBeats total)) = String.ofList figure ∧
      WritesDecimal figure (((k * signature.beatType.toNat : ℕ) : ℚ) / 16) := by
  obtain ⟨n, hn⟩ : ∃ n, k * signature.beatType.toNat = n := ⟨_, rfl⟩
  have hle := Nat.mul_le_mul (Nat.le_of_lt_succ hk) htype
  rw [hn] at hle hpos ⊢
  have hfigure := denotes_toMillionths (by omega) (denotes_ownBeats hn (by omega) htotal)
  -- a sixteenth is 625 ten-thousandths
  have hdecimal : (n : ℚ) / 16 = ((n * 625 : ℕ) : ℚ) * 10 ^ (-4 : ℤ) := by
    push_cast
    norm_num
    ring
  rw [hdecimal] at hfigure ⊢
  exact exists_writesDecimal_inMessage hfigure (by omega) (by omega)

/-! ## 6. One measure -/

/-- Which way notes of `k` sixteenths miss the signature. -/
def wayOf (signature : TimeSignature) (k : ℕ) : Misfit :=
  if 16 * signature.beats.toNat < k * signature.beatType.toNat then .over else .under

theorem misfit?_eq {signature : TimeSignature} {notes : List (NoteKind × Duration)} (number : ℕ)
    (hsignature : signature.Positive) (htype : signature.beatType.toNat ≤ 100000)
    (hk : sixteenths notes < 1000000) :
    misfit? number signature notes =
      if sixteenths notes * signature.beatType.toNat = 16 * signature.beats.toNat then none
      else some (.misfit (wayOf signature (sixteenths notes)) number
        (toMillionths (signature.ownBeats (Scalar.sum (notes.map fun note => note.2.beats))))
        signature) := by
  have htotal := denotes_total (by omega : sixteenths notes < 2 ^ 53)
  obtain ⟨hfull, hover⟩ := decides_exactly hsignature htype hk htotal
  unfold misfit? wayOf
  simp only [hfull, hover]

/-! ## 7. The warnings of a text -/

/-- Lines are told apart by their drafts, so the warnings on a line are those on its draft. -/
theorem filter_warningsFrom {ds : List Draft} (hlines : (ds.map (·.line)).Pairwise (· < ·))
    {i : ℕ} {draft : Draft} (hdraft : ds[i]? = some draft) (first : ℕ) :
    (warningsFrom first ds).filter (fun w => w.line = draft.line) =
      (warning? (first + i) draft).toList := by
  induction ds generalizing first i with
  | nil => cases hdraft
  | cons head rest ih =>
    obtain ⟨hhead, hrest⟩ := List.pairwise_cons.mp hlines
    have hfirst : ∀ w ∈ (warning? first head).toList, w.line = head.line := by
      intro w hw
      obtain ⟨way, beats, rfl⟩ := misfit_of_warning? (Option.mem_toList.mp hw)
      rfl
    rw [warningsFrom, List.filter_append]
    cases i with
    | zero =>
      obtain rfl : head = draft := Option.some.inj hdraft
      have hkept : (warning? first head).toList.filter (fun w => w.line = head.line) =
          (warning? first head).toList := by
        rw [List.filter_eq_self]
        exact fun w hw => decide_eq_true (hfirst w hw)
      have hlater : (warningsFrom (first + 1) rest).filter (fun w => w.line = head.line) = [] := by
        rw [List.filter_eq_nil_iff]
        intro w hw
        have hline := (map_line_warningsFrom_sublist (first + 1) rest).subset
          (List.mem_map_of_mem hw)
        have hlt : head.line < w.line := hhead w.line hline
        rw [decide_eq_true_eq]
        omega
      rw [hkept, hlater, List.append_nil, Nat.add_zero]
    | succ i =>
      have hdraft : rest[i]? = some draft := hdraft
      have hlt : head.line < draft.line :=
        hhead draft.line (List.mem_map_of_mem (List.mem_of_getElem? hdraft))
      have hearlier : (warning? first head).toList.filter (fun w => w.line = draft.line) = [] := by
        rw [List.filter_eq_nil_iff]
        intro w hw
        rw [decide_eq_true_eq, hfirst w hw]
        omega
      rw [hearlier, List.nil_append, ih hrest hdraft (first + 1)]
      congr 2
      omega

end TextScore.Notation

namespace TextScore

open Decimal Notation

/-- The length of the measure's notes in sixteenths. -/
def Measure.sixteenths (m : Measure) : ℕ :=
  (m.notes.map fun note => note.duration.sixteenths).sum

theorem Measure.sixteenths_eq (m : Measure) : m.sixteenths = Notation.sixteenths m.content.2 := by
  unfold Measure.sixteenths Notation.sixteenths Measure.content
  rw [List.map_map]
  rfl

theorem Duration.sixteenths_pos (d : Duration) : 0 < d.sixteenths := by
  cases d <;> decide

theorem Measure.sixteenths_pos {m : Measure} (h : m.notes ≠ []) : 0 < m.sixteenths := by
  obtain ⟨note, rest, hnotes⟩ := List.exists_cons_of_ne_nil h
  unfold Measure.sixteenths
  rw [hnotes, List.map_cons, List.sum_cons]
  have := note.duration.sixteenths_pos
  omega

namespace Notation

/-- The warning on a measure that holds `k` sixteenths, its beats written as `figure`. -/
def misfitWarning (line number : ℕ) (signature : TimeSignature) (k : ℕ) (figure : List Char) :
    Diagnostic :=
  let exceeds := 16 * signature.beats.toNat < k * signature.beatType.toNat
  let word := if exceeds then "overfull" else "underfull"
  { line := line
    column := none
    kind := if exceeds then .overfull else .underfull
    message :=
      s!"Measure {number} is {word}: {String.ofList figure} of {signature.beats.toNat} beats in " ++
        signature.name }

theorem misfit_atPlace_eq {signature : TimeSignature} {beats : Float} {figure : List Char}
    (line number k : ℕ) (hfigure : inMessage beats = String.ofList figure) :
    (Fault.misfit (wayOf signature k) number beats signature).atPlace line none =
      misfitWarning line number signature k figure := by
  unfold misfitWarning
  by_cases hover : 16 * signature.beats.toNat < k * signature.beatType.toNat
  · have hway : wayOf signature k = .over := if_pos hover
    simp only [hway, if_pos hover, ← hfigure]
    rfl
  · have hway : wayOf signature k = .under := if_neg hover
    simp only [hway, if_neg hover, ← hfigure]
    rfl

theorem exists_warning?_eq {draft : Draft} (number : ℕ) (hsignature : draft.signature.Positive)
    (htype : draft.signature.beatType.toNat ≤ 100000) (hk : sixteenths draft.notes < 1000000)
    (hpos : 0 < sixteenths draft.notes) :
    ∃ figure, WritesDecimal figure
        (((sixteenths draft.notes * draft.signature.beatType.toNat : ℕ) : ℚ) / 16) ∧
      warning? number draft =
        if sixteenths draft.notes * draft.signature.beatType.toNat =
          16 * draft.signature.beats.toNat then none
        else some
          (misfitWarning draft.line number draft.signature (sixteenths draft.notes) figure) := by
  have hproduct : 0 < sixteenths draft.notes * draft.signature.beatType.toNat :=
    Nat.mul_pos hpos hsignature.2
  obtain ⟨figure, hfigure, hwrites⟩ :=
    exists_writesDecimal_figure htype hproduct hk (denotes_total (by omega))
  refine ⟨figure, hwrites, ?_⟩
  unfold warning?
  rw [misfit?_eq number hsignature htype hk, apply_ite (Option.map _), Option.map_none,
    Option.map_some, misfit_atPlace_eq _ _ _ hfigure]

section

variable {σ : Type} [IdSource σ] (ids : σ) (options : ParseOptions) (text : String)

/-- A measure whose beat type and notes are not beyond bounds is warned about exactly when its notes
do not fill it, the right way, and with its beats written out in full. -/
theorem warnings_decide_exactly {doc : Document}
    (hdoc : (parseFrom ids options text).1.document = some doc) {i : ℕ} {m : Measure}
    (hm : doc.measures[i]? = some m) (htype : m.signature.beatType.toNat ≤ 100000)
    (hk : m.sixteenths < 1000000) :
    let output := (parseFrom ids options text).1
    let beats := m.signature.beats.toNat
    let beatType := m.signature.beatType.toNat
    ∃ line figure, output.measureLines[i]? = some line ∧
      WritesDecimal figure (((m.sixteenths * beatType : ℕ) : ℚ) / 16) ∧
      output.warnings.filter (fun w => w.line = line) =
        (if m.sixteenths * beatType = 16 * beats then []
          else [misfitWarning line (i + 1) m.signature m.sixteenths figure]) ∧
      (m.sixteenths * beatType ≠ 16 * beats → figure ≠ Nat.toDigits 10 beats) := by
  intro output beats beatType
  obtain ⟨hnotes, hsignature, -⟩ := legible_of_parseFrom hdoc m (List.mem_of_getElem? hm)
  -- the measure is a draft of the text
  have hcontent : ((outline text)[i]?).map Draft.content = some m.content := by
    rw [← List.getElem?_map, ← content_of_document ids options text hdoc, Document.content,
      List.getElem?_map, hm, Option.map_some]
  obtain ⟨draft, hdraft, hsame⟩ := Option.map_eq_some_iff.mp hcontent
  have hsignature' : draft.signature = m.signature := congrArg Prod.fst hsame
  have hnotes' : sixteenths draft.notes = m.sixteenths := by
    rw [m.sixteenths_eq, ← hsame]
    rfl
  have hpositive : draft.signature.Positive := by rwa [hsignature']
  obtain ⟨figure, hwrites, hwarning⟩ := exists_warning?_eq (1 + i) hpositive
    (by rwa [hsignature']) (by rwa [hnotes']) (hnotes' ▸ Measure.sixteenths_pos hnotes)
  rw [hsignature', hnotes'] at hwrites hwarning
  refine ⟨draft.line, figure, ?_, hwrites, ?_, ?_⟩
  · rw [show output.measureLines = _ from parseFrom_measureLines ids options text,
      List.getElem?_map, hdraft, Option.map_some]
  · rw [show output.warnings = _ from parseFrom_warnings ids options text,
      filter_warningsFrom (outline_increasing text) hdraft 1, hwarning, Nat.add_comm 1 i]
    split
    · rfl
    · rfl
  · -- a figure that is the signature's number of beats stands for a full measure
    intro hne hfigure
    rw [hfigure] at hwrites
    have hvalue := eq_of_writesDecimal_toDigits hwrites
    rw [div_eq_iff (by norm_num)] at hvalue
    apply hne
    rw [Nat.mul_comm 16]
    exact_mod_cast hvalue

/-- A measure in sevenths, whose capacity is no double, and one in quarters. -/
def seventhsText : String := "3/7 | C4 q D4 q E4 q\n| R e F4 s"

theorem seventhsText_warnings_decide_exactly :
    let output := parse .none seventhsText
    output.warnings.map (·.message) =
        ["Measure 1 is overfull: 5.25 of 3 beats in 3/7",
          "Measure 2 is underfull: 0.75 of 4 beats in 4/4"] ∧
      ∃ doc m, output.document = some doc ∧ doc.measures[0]? = some m ∧
        m.signature.beatType.toNat ≤ 100000 ∧ m.sixteenths < 1000000 ∧
        ∃ line figure, output.measureLines[0]? = some line ∧
          WritesDecimal figure (((12 * 7 : ℕ) : ℚ) / 16) ∧
          output.warnings.filter (fun w => w.line = line) =
            [misfitWarning line 1 ⟨3, 7⟩ 12 figure] ∧
          figure ≠ Nat.toDigits 10 3 := by
  intro output
  have hfirst : (output.document.bind fun doc => doc.measures[0]?.map fun m =>
      (m.signature, m.sixteenths)) = some (⟨3, 7⟩, 12) := by decide
  obtain ⟨doc, hdoc, hfirst⟩ := Option.bind_eq_some_iff.mp hfirst
  obtain ⟨m, hm, hshape⟩ := Option.map_eq_some_iff.mp hfirst
  obtain ⟨hsignature, hlength⟩ := Prod.mk.inj hshape
  have htype : m.signature.beatType.toNat ≤ 100000 := by rw [hsignature]; decide
  have hk : m.sixteenths < 1000000 := by rw [hlength]; decide
  obtain ⟨line, figure, hline, hwrites, hwarning, hother⟩ :=
    warnings_decide_exactly IdSupply.fresh .none seventhsText hdoc hm htype hk
  rw [hsignature, hlength] at hwrites hwarning hother
  have hmisfit : 12 * (7 : UInt32).toNat ≠ 16 * (3 : UInt32).toNat := by decide
  rw [if_neg hmisfit] at hwarning
  exact ⟨by decide +kernel, doc, m, hdoc, hm, htype, hk, line, figure, hline, hwrites, hwarning,
    hother hmisfit⟩

end

end Notation

end TextScore

import Mathlib
import TextScore.Proofs.Schedule.Cursor
import TextScore.Proofs.Schedule.Onset

/-!
# Gaps — where an event ends before the next one starts

The end of an event and the start of the next are the same instant by two ways: one is a start and a
duration added up, the other a position multiplied.  Each way rounds twice, so the two agree to fifty
places but need not be equal; and where the end comes first, no note is on in between.
-/

namespace TextScore

open Decimal

/-! ## 1. Rounding twice -/

/-- Where 53 places are left, or nothing at all, a number moves by a fixed part of it. -/
theorem Decimal.Nearest.near_of_nonneg {v w : ℚ} (h : Nearest v w) (hv : 0 ≤ v)
    (hplaces : v = 0 ∨ 2 ^ (-1022 : ℤ) ≤ v) : |w - v| ≤ v / 2 ^ 53 := by
  rcases hplaces with rfl | hplaces
  · rw [h.eq_zero]
    norm_num
  · have habs : |v| = v := abs_of_nonneg hv
    have hnear := h.near (habs.symm ▸ hplaces)
    rwa [habs] at hnear

/-- Where 53 places are left before and after, rounding and doubling can be exchanged. -/
theorem Decimal.Nearest.mul_two_zpow {v w : ℚ} (h : Nearest v w) (k : ℤ) (hv : 0 ≤ v)
    (hplaces : v = 0 ∨ 2 ^ (-1022 : ℤ) ≤ v ∧ 2 ^ (-1022 : ℤ) ≤ v * 2 ^ k) :
    Nearest (v * 2 ^ k) (w * 2 ^ k) := by
  rcases hplaces with rfl | ⟨hplaces, hscaled⟩
  · rw [h.eq_zero, zero_mul]
    exact .zero
  · obtain ⟨T, n, hT, hn, rfl⟩ := h
    have hpos : (0 : ℚ) < 2 ^ k := by positivity
    have hunit : (2 : ℚ) ^ (T + k) = 2 ^ T * 2 ^ k := zpow_add₀ (by norm_num) _ _
    have hfull : (2 : ℚ) ^ (52 + T) ≤ v := by
      rcases hT.full with rfl | hfull
      · exact hplaces
      · rwa [abs_of_nonneg hv] at hfull
    have hlt : v < 2 ^ (53 + T) := by
      rw [← abs_of_nonneg hv]
      exact hT.lt
    have habs : |v * 2 ^ k| = v * 2 ^ k := abs_of_nonneg (by positivity)
    have hmul : ∀ m : ℤ, (2 : ℚ) ^ (m + (T + k)) = 2 ^ (m + T) * 2 ^ k := by
      intro m
      rw [← add_assoc, zpow_add₀ (by norm_num)]
    have hlt' : v * 2 ^ k < 2 ^ (53 + (T + k)) := by
      rw [hmul]
      gcongr
    refine ⟨T + k, n, ⟨?_, habs.symm ▸ hlt', .inr ?_⟩, ?_, ?_⟩
    · have := (zpow_lt_zpow_iff_right₀ (by norm_num : (1 : ℚ) < 2)).mp (hscaled.trans_lt hlt')
      omega
    · rw [habs, hmul]
      gcongr
    · rwa [hunit, mul_div_mul_right _ _ hpos.ne']
    · rw [hunit, mul_assoc]

/-- A number that is moved twice stays within a part of it. -/
theorem moved_twice {v x y u : ℚ} (hu : 0 ≤ u) (hu' : u ≤ 1) (hx : |x - v| ≤ v * u)
    (hy : |y - x| ≤ x * u) : v * (1 - u) ^ 2 ≤ y ∧ y ≤ v * (1 + u) ^ 2 := by
  obtain ⟨hxlow, hxhigh⟩ := abs_le.mp hx
  obtain ⟨hylow, hyhigh⟩ := abs_le.mp hy
  constructor
  · calc v * (1 - u) ^ 2 = v * (1 - u) * (1 - u) := by ring
      _ ≤ x * (1 - u) := by
        gcongr
        linarith
      _ ≤ y := by linarith
  · calc y ≤ x * (1 + u) := by linarith
      _ ≤ v * (1 + u) * (1 + u) := by
        gcongr
        linarith
      _ = v * (1 + u) ^ 2 := by ring

/-- Two numbers that were each reached by rounding twice agree to fifty places. -/
theorem near_of_moved_twice {v x y : ℚ} (hv : 0 ≤ v)
    (hx : v * (1 - 1 / 2 ^ 53) ^ 2 ≤ x ∧ x ≤ v * (1 + 1 / 2 ^ 53) ^ 2)
    (hy : v * (1 - 1 / 2 ^ 53) ^ 2 ≤ y ∧ y ≤ v * (1 + 1 / 2 ^ 53) ^ 2) :
    |x - y| ≤ y / 2 ^ 50 := by
  obtain ⟨hxlow, hxhigh⟩ := hx
  obtain ⟨hylow, hyhigh⟩ := hy
  rw [abs_le]
  constructor <;> linarith

/-! ## 2. Two ways to one instant -/

/-- A beat lasts long enough for a sixteenth to have 53 places. -/
def Audible (σ : ℚ) : Prop :=
  2 ^ (-1019 : ℤ) ≤ σ

section

variable {σ p d p' d' : ℚ} {e next : Event Float}

theorem Audible.pos (h : Audible σ) : 0 < σ :=
  lt_of_lt_of_le (by positivity) h

theorem Audible.le_mul (h : Audible σ) (hp : 1 / 4 ≤ p) : 2 ^ (-1021 : ℤ) ≤ p * σ := by
  calc (2 : ℚ) ^ (-1021 : ℤ) = 1 / 4 * 2 ^ (-1019 : ℤ) := by
        rw [show (-1021 : ℤ) = -2 + -1019 from rfl, zpow_add₀ (by norm_num)]
        norm_num
    _ ≤ p * σ := by
      gcongr
      exact h

theorem least_le : (2 : ℚ) ^ (-1022 : ℤ) ≤ 2 ^ (-1021 : ℤ) :=
  zpow_le_zpow_right₀ (by norm_num) (by norm_num)

theorem Position.near_mul (hp : Position p) (hσ : Audible σ) {s : ℚ} (hs : Nearest (p * σ) s) :
    |s - p * σ| ≤ p * σ / 2 ^ 53 := by
  refine hs.near_of_nonneg (mul_nonneg hp.nonneg hσ.pos.le) ?_
  rcases hp.apart with rfl | hge
  · exact .inl (zero_mul σ)
  · exact .inr (least_le.trans (hσ.le_mul hge))

theorem Beats.near_mul (hd : Beats d) (hσ : Audible σ) {l : ℚ} (hl : Nearest (d * σ) l) :
    |l - d * σ| ≤ d * σ / 2 ^ 53 := by
  have hplaces := hσ.le_mul hd.low
  exact hl.near_of_nonneg (by linarith [hσ.pos, mul_pos (by linarith [hd.low] : 0 < d) hσ.pos])
    (.inr (least_le.trans hplaces))

/-- The start of the next event. -/
theorem moved_start (hσ : Audible σ) (hp : Position p) (hd : Beats d) (hp' : Position p')
    (hmoved : Nearest (p + d) p') {s : ℚ} (hs : Nearest (p' * σ) s) :
    (p + d) * σ * (1 - 1 / 2 ^ 53) ^ 2 ≤ s ∧ s ≤ (p + d) * σ * (1 + 1 / 2 ^ 53) ^ 2 := by
  have hσpos := hσ.pos
  have hsum : 0 ≤ p + d := by linarith [hp.nonneg, hd.low]
  have hposition : |p' - (p + d)| ≤ (p + d) / 2 ^ 53 := by
    refine hmoved.near_of_nonneg hsum (.inr ?_)
    calc (2 : ℚ) ^ (-1022 : ℤ) ≤ 2 ^ (-2 : ℤ) :=
          zpow_le_zpow_right₀ (by norm_num) (by norm_num)
      _ = 1 / 4 := by norm_num
      _ ≤ p + d := by linarith [hp.nonneg, hd.low]
  have hfirst : |p' * σ - (p + d) * σ| ≤ (p + d) * σ * (1 / 2 ^ 53) := by
    calc |p' * σ - (p + d) * σ| = |p' - (p + d)| * σ := by
          rw [← sub_mul, abs_mul, abs_of_pos hσpos]
      _ ≤ (p + d) / 2 ^ 53 * σ := by gcongr
      _ = (p + d) * σ * (1 / 2 ^ 53) := by ring
  have hsecond : |s - p' * σ| ≤ p' * σ * (1 / 2 ^ 53) := by
    rw [mul_one_div]
    exact hp'.near_mul hσ hs
  exact moved_twice (by norm_num) (by norm_num) hfirst hsecond

/-- The end of the event in front of it. -/
theorem moved_end (hσ : Audible σ) (hp : Position p) (hd : Beats d) {s l q : ℚ}
    (hs : Nearest (p * σ) s) (hl : Nearest (d * σ) l) (hq : Nearest (s + l) q) :
    (p + d) * σ * (1 - 1 / 2 ^ 53) ^ 2 ≤ q ∧ q ≤ (p + d) * σ * (1 + 1 / 2 ^ 53) ^ 2 := by
  have hs0 : 0 ≤ s := Nearest.zero.mono hs le_rfl (mul_nonneg hp.nonneg hσ.pos.le)
  have hl0 : 2 ^ (-1021 : ℤ) ≤ l :=
    (nearest_two_zpow (by decide)).mono hl (by positivity) (hσ.le_mul hd.low)
  have hplaces : (2 : ℚ) ^ (-1022 : ℤ) ≤ s + l := by linarith [least_le]
  have hpos : (0 : ℚ) < 2 ^ (-1022 : ℤ) := by positivity
  have hfirst : |s + l - (p + d) * σ| ≤ (p + d) * σ * (1 / 2 ^ 53) := by
    calc |s + l - (p + d) * σ| = |(s - p * σ) + (l - d * σ)| := by congr 1; ring
      _ ≤ |s - p * σ| + |l - d * σ| := abs_add_le _ _
      _ ≤ p * σ / 2 ^ 53 + d * σ / 2 ^ 53 := add_le_add (hp.near_mul hσ hs) (hd.near_mul hσ hl)
      _ = (p + d) * σ * (1 / 2 ^ 53) := by ring
  have hsecond : |q - (s + l)| ≤ (s + l) * (1 / 2 ^ 53) := by
    rw [mul_one_div]
    exact hq.near_of_nonneg (by linarith) (.inr hplaces)
  exact moved_twice (by norm_num) (by norm_num) hfirst hsecond

/-! ## 3. One event and the next -/

theorem Event.PlacedAt.exists_end (he : e.PlacedAt σ p d) (hσ : Audible σ) (hp : Position p)
    (hd : Beats d) :
    ∃ s l q, Nearest (p * σ) s ∧ Nearest (d * σ) l ∧ Nearest (clip s + clip l) q ∧ 0 ≤ clip l ∧
      0 ≤ clip s ∧ StandsAt e.timeSeconds (clip s) ∧ StandsAt e.endSeconds (clip q) := by
  obtain ⟨⟨s, hs, hstart⟩, ⟨l, hl, hduration⟩⟩ := he
  have hs0 : 0 ≤ s := Nearest.zero.mono hs le_rfl (mul_nonneg hp.nonneg hσ.pos.le)
  have hl0 : 0 ≤ l := Nearest.zero.mono hl le_rfl (mul_nonneg hd.nonneg hσ.pos.le)
  have hsclip := le_clip hs0 limit_pos.le
  have hlclip := le_clip hl0 limit_pos.le
  obtain ⟨q, hq, hend⟩ := hstart.exists_add_of_nonneg hduration hsclip hlclip
  exact ⟨s, l, q, hs, hl, hq, hlclip, hsclip, hstart, hend⟩

theorem Event.PlacedAt.start_le_end (he : e.PlacedAt σ p d) (hσ : Audible σ) (hp : Position p)
    (hd : Beats d) : e.timeSeconds ≤ e.endSeconds := by
  obtain ⟨s, l, q, -, -, hq, hl0, hs0, hstart, hend⟩ := he.exists_end hσ hp hd
  rw [hstart.le_iff hend]
  exact le_clip (hstart.nearest.mono hq hs0 (by linarith)) (le_of_abs_le hstart.abs_le)

theorem Event.PlacedAt.start_le_next (he : e.PlacedAt σ p d) (hnext : next.PlacedAt σ p' d')
    (hσ : Audible σ) (hp : Position p) (hle : p ≤ p') : e.timeSeconds ≤ next.timeSeconds := by
  obtain ⟨⟨s, hs, hstart⟩, -⟩ := he
  obtain ⟨⟨s', hs', hstart'⟩, -⟩ := hnext
  have hσpos := hσ.pos
  rw [hstart.le_iff hstart']
  exact clip_mono (hs.mono hs' (mul_nonneg hp.nonneg hσpos.le) (by gcongr))

/-- The end of an event and the start of the next one agree to fifty places. -/
theorem Event.PlacedAt.end_near_next (he : e.PlacedAt σ p d) (hnext : next.PlacedAt σ p' d')
    (hσ : Audible σ) (hp : Position p) (hd : Beats d) (hp' : Position p')
    (hmoved : Nearest (p + d) p') :
    ∃ q s, StandsAt e.endSeconds q ∧ StandsAt next.timeSeconds s ∧
      (s < limit → |q - s| ≤ s / 2 ^ 50) := by
  obtain ⟨s, l, q, hs, hl, hq, -, -, -, hend⟩ := he.exists_end hσ hp hd
  obtain ⟨⟨s', hs', hstart'⟩, -⟩ := hnext
  refine ⟨clip q, clip s', hend, hstart', fun hfinite => ?_⟩
  have hσpos := hσ.pos
  have hsum : 0 ≤ p + d := add_nonneg hp.nonneg hd.nonneg
  -- neither part of the end is larger than the next start, so none is infinite
  have hpp' : p ≤ p' := hp.kept.mono hmoved hp.nonneg (by linarith [hd.nonneg])
  have hdp' : d ≤ p' := hd.kept.mono hmoved hd.nonneg (by linarith [hp.nonneg])
  have hs0 : 0 ≤ s := Nearest.zero.mono hs le_rfl (mul_nonneg hp.nonneg hσpos.le)
  have hl0 : 0 ≤ l := Nearest.zero.mono hl le_rfl (mul_nonneg hd.nonneg hσpos.le)
  have hsle : s ≤ s' := hs.mono hs' (mul_nonneg hp.nonneg hσpos.le) (by gcongr)
  have hlle : l ≤ s' := hl.mono hs' (mul_nonneg hd.nonneg hσpos.le) (by gcongr)
  rw [clip_of_le_of_clip_lt hs0 hsle hfinite, clip_of_le_of_clip_lt hl0 hlle hfinite] at hq
  calc |clip q - clip s'| ≤ |q - s'| := abs_clip_sub_clip_le q s'
    _ ≤ s' / 2 ^ 50 := near_of_moved_twice (by positivity) (moved_end hσ hp hd hs hl hq)
        (moved_start hσ hp hd hp' hmoved hs')
    _ = clip s' / 2 ^ 50 := by rw [clip_of_le_of_clip_lt (hs0.trans hsle) le_rfl hfinite]

theorem OnClock.follows {events : List (Event Float)} {k : ℕ} (h : OnClock σ p events)
    (hσ : Audible σ) (he : events[k]? = some e) (hnext : events[k + 1]? = some next) :
    e.timeSeconds ≤ next.timeSeconds ∧
      ∃ q s, StandsAt e.endSeconds q ∧ StandsAt next.timeSeconds s ∧
        (s < limit → |q - s| ≤ s / 2 ^ 50) := by
  obtain ⟨p, d, hp, hd, hplaced, hfollows⟩ := h.placedAt he
  obtain ⟨p', d', hmoved, hp', -, hplaced'⟩ := hfollows next hnext
  have hle : p ≤ p' := hp.kept.mono hmoved hp.nonneg (by linarith [hd.nonneg])
  exact ⟨hplaced.start_le_next hplaced' hσ hp hle,
    hplaced.end_near_next hplaced' hσ hp hd hp' hmoved⟩

theorem OnClock.start_le_end {events : List (Event Float)} (h : OnClock σ p events)
    (hσ : Audible σ) (he : e ∈ events) : e.timeSeconds ≤ e.endSeconds := by
  obtain ⟨k, hk⟩ := List.mem_iff_getElem?.mp he
  obtain ⟨p, d, hp, hd, hplaced, -⟩ := h.placedAt hk
  exact hplaced.start_le_end hσ hp hd

theorem OnClock.start_nonneg {events : List (Event Float)} {k : ℕ} (h : OnClock σ p events)
    (hσ : Audible σ) (he : events[k]? = some e) : 0 ≤ e.timeSeconds := by
  obtain ⟨p, d, hp, hd, hplaced, -⟩ := h.placedAt he
  obtain ⟨s, -, -, -, -, -, -, hs0, hstart, -⟩ := hplaced.exists_end hσ hp hd
  exact (standsAt_zero.le_iff hstart).mpr hs0

end

namespace Schedule

theorem chronological_of_onClock {σ p : ℚ} {events : List (Event Float)} (h : OnClock σ p events)
    (hσ : Audible σ) : Chronological events := by
  refine chronological_of_next (fun e he => ?_) fun k e next he hnext => (h.follows hσ he hnext).1
  obtain ⟨_, _, hstart, -⟩ := exists_standsAt_of_le (h.start_le_end hσ he)
  exact hstart.isNaN

theorem exists_onClock {tempo : Tempo} (hfinite : (secondsPerBeat tempo.bpm).isFinite = true)
    (doc : Document) :
    ∃ b σ, StandsAt tempo.bpm b ∧ 2 ^ (-1019 : ℤ) ≤ 60 / b ∧ Nearest (60 / b) σ ∧ Audible σ ∧
      OnClock σ 0 (events tempo.bpm doc) := by
  obtain ⟨b, hb, hpos, hlt⟩ := tempo.exists_standsAt
  obtain ⟨w, hnearest, hlow, hspb⟩ := exists_secondsPerBeat hb hpos hlt
  have hw : 0 < w := lt_of_lt_of_le (by positivity) hlow
  rw [hspb.isFinite_iff, abs_of_pos (clip_pos hw)] at hfinite
  rw [clip_of_le_of_clip_lt hw.le le_rfl hfinite] at hspb
  exact ⟨b, w, hb, le_sixty_div hpos hlt, hnearest, hlow,
    onClock_events hspb hw (clip_lt_limit_iff.mp hfinite) doc⟩

/-! ## 4. Times without a note -/

theorem totalDuration_of_last {events : List (Event Float)} {k : ℕ} {e : Event Float}
    (he : events[k]? = some e) (hlast : events[k + 1]? = none) :
    totalDuration events = e.endSeconds := by
  have hk := (List.getElem?_eq_some_iff.mp he).1
  have hlength := List.getElem?_eq_none_iff.mp hlast
  have hend : events.getLast? = some e := by
    rw [List.getLast?_eq_getElem?, ← he]
    congr 1
    omega
  unfold totalDuration
  rw [hend]

/-- Between its first start and its end, a schedule has no note on only where an event is over and
the next one waits. -/
theorem activeNote?_eq_none_iff {events : List (Event Float)} (h : Chronological events)
    (hends : ∀ e ∈ events, e.timeSeconds ≤ e.endSeconds) {time : Float} (hneg : ¬time < 0)
    {first : Event Float} (hfirst : first ∈ events) (hstarted : first.timeSeconds ≤ time)
    (htotal : time < totalDuration events) :
    activeNote? events time = none ↔
      ∃ (k : ℕ) (e next : Event Float), events[k]? = some e ∧ events[k + 1]? = some next ∧
        e.endSeconds ≤ time ∧ time < next.timeSeconds := by
  constructor
  · intro hnone
    obtain ⟨k, e, hlast⟩ := h.exists_lastStarted hfirst hstarted
    obtain ⟨_, _, hstart, htime, -⟩ := exists_standsAt_of_le hlast.started
    obtain ⟨_, _, -, hend, -⟩ := exists_standsAt_of_le (hends e (List.mem_of_getElem? hlast.at_index))
    have hover : ¬time < e.endSeconds := by
      intro hon
      rw [h.activeNote?_eq hneg hlast, if_pos hon] at hnone
      cases hnone
    cases hnext : events[k + 1]? with
    | none =>
      rw [totalDuration_of_last hlast.at_index hnext] at htotal
      exact absurd htotal hover
    | some next =>
      obtain ⟨_, _, hwait, -⟩ := exists_standsAt_of_le (hends next (List.mem_of_getElem? hnext))
      exact ⟨k, e, next, hlast.at_index, hnext, float_le_of_not_lt hend.isNaN htime.isNaN hover,
        float_lt_of_not_le htime.isNaN hwait.isNaN (hlast.next_waits next hnext)⟩
  · rintro ⟨k, e, next, he, hnext, hover, hwaits⟩
    have hlast : LastStarted events time k e := by
      refine ⟨he, float_le_trans (hends e (List.mem_of_getElem? he)) hover, ?_⟩
      intro next' hnext' hearly
      obtain rfl : next = next' := Option.some.inj (hnext.symm.trans hnext')
      exact float_not_lt hearly hwaits
    rw [h.activeNote?_eq hneg hlast, if_neg (float_not_lt hover)]

theorem start_le_totalDuration {σ p : ℚ} {events : List (Event Float)} (h : OnClock σ p events)
    (hσ : Audible σ) {k : ℕ} {e : Event Float} (he : events[k]? = some e) :
    e.timeSeconds ≤ totalDuration events := by
  have hk := (List.getElem?_eq_some_iff.mp he).1
  have hlast := List.getElem?_eq_getElem (l := events) (i := events.length - 1) (by omega)
  have hlater := chronological_of_onClock h hσ k _ e _ (by omega) he hlast
  rw [totalDuration_of_last hlast (List.getElem?_eq_none (by omega))]
  exact float_le_trans hlater (h.start_le_end hσ (List.mem_of_getElem? hlast))

theorem activeNote?_eq_none_iff_of_onClock {σ : ℚ} {events : List (Event Float)}
    (h : OnClock σ 0 events) (hσ : Audible σ) {time : Float} (hnonneg : 0 ≤ time)
    (htotal : time < totalDuration events) :
    activeNote? events time = none ↔
      ∃ (k : ℕ) (e next : Event Float), events[k]? = some e ∧ events[k + 1]? = some next ∧
        e.endSeconds ≤ time ∧ time < next.timeSeconds := by
  cases hfirst : events[0]? with
  | none =>
    -- without events the end is at once
    rw [List.getElem?_eq_none_iff, Nat.le_zero, List.length_eq_zero_iff] at hfirst
    rw [hfirst] at htotal
    exact absurd htotal (float_not_lt hnonneg)
  | some first =>
    have hstarted := ((h.standsAt_first hfirst).le_iff standsAt_zero).mpr le_rfl
    exact activeNote?_eq_none_iff (chronological_of_onClock h hσ) (fun _ => h.start_le_end hσ)
      (float_not_lt hnonneg) (List.mem_of_getElem? hfirst) (float_le_trans hstarted hnonneg) htotal

/-- In a schedule of finite seconds per beat there is a note at every time up to the end, but for the
times where an event is over and the next one waits.  So there is a note throughout if and only if no
event ends before the next one starts; and where one does, the two times agree to fifty places. -/
theorem note_throughout_iff {tempo : Tempo}
    (hfinite : (secondsPerBeat tempo.bpm).isFinite = true) (doc : Document) :
    let played := events tempo.bpm doc
    (∀ time, 0 ≤ time → time < totalDuration played →
      (activeNote? played time = none ↔
        ∃ (k : ℕ) (e next : Event Float), played[k]? = some e ∧ played[k + 1]? = some next ∧
          e.endSeconds ≤ time ∧ time < next.timeSeconds)) ∧
    ((∀ time, 0 ≤ time → time < totalDuration played → activeNote? played time ≠ none) ↔
      ∀ (k : ℕ) (e next : Event Float), played[k]? = some e → played[k + 1]? = some next →
        ¬e.endSeconds < next.timeSeconds) ∧
    ∀ (k : ℕ) (e next : Event Float), played[k]? = some e → played[k + 1]? = some next →
      ∃ q s, StandsAt e.endSeconds q ∧ StandsAt next.timeSeconds s ∧
        (s < limit → |q - s| ≤ s / 2 ^ 50) := by
  intro played
  obtain ⟨_, σ, -, -, -, hσ, hclock⟩ := exists_onClock hfinite doc
  refine ⟨fun time => activeNote?_eq_none_iff_of_onClock hclock hσ,
    ⟨fun h k e next he hnext hgap => ?_, fun h time hnonneg htotal hactive => ?_⟩,
    fun k e next he hnext => (hclock.follows hσ he hnext).2⟩
  · -- at its end the event is over, and the next one waits
    have hnonneg : 0 ≤ e.endSeconds :=
      float_le_trans (hclock.start_nonneg hσ he) (hclock.start_le_end hσ (List.mem_of_getElem? he))
    have htotal := float_lt_of_lt_of_le hgap (start_le_totalDuration hclock hσ hnext)
    obtain ⟨_, _, hend, -⟩ := exists_standsAt_of_lt hgap
    exact h e.endSeconds hnonneg htotal
      ((activeNote?_eq_none_iff_of_onClock hclock hσ hnonneg htotal).mpr
        ⟨k, e, next, he, hnext, float_le_refl hend.isNaN, hgap⟩)
  · obtain ⟨k, e, next, he, hnext, hover, hwaits⟩ :=
      (activeNote?_eq_none_iff_of_onClock hclock hσ hnonneg htotal).mp hactive
    exact h k e next he hnext (float_lt_of_le_of_lt hover hwaits)

/-- Forty-five beats a minute: the third note ends before the last one starts. -/
def adagio : Document :=
  ⟨⟨1⟩, "Adagio", ⟨45, by decide⟩,
    [⟨⟨1⟩, .common, [⟨⟨1⟩, .pitched ⟨.C, .natural, 4⟩, .whole⟩,
      ⟨⟨2⟩, .pitched ⟨.D, .natural, 4⟩, .quarter⟩, ⟨⟨3⟩, .pitched ⟨.E, .natural, 4⟩, .quarter⟩,
      ⟨⟨4⟩, .pitched ⟨.F, .natural, 4⟩, .whole⟩]⟩]⟩

/-- In the middle of the piece there is a time without a note. -/
theorem adagio_drops_out :
    (secondsPerBeat adagio.tempo.bpm).isFinite = true ∧
      (7.999999999999999 : Float) < totalDuration adagio.schedule ∧
      activeNote? adagio.schedule 7.999999999999999 = none := by
  have hfinite : (secondsPerBeat adagio.tempo.bpm).isFinite = true := by decide +kernel
  have htotal : (7.999999999999999 : Float) < totalDuration adagio.schedule := by decide +kernel
  refine ⟨hfinite, htotal, ?_⟩
  exact ((note_throughout_iff hfinite adagio).1 _ (by decide +kernel) htotal).mpr
    ⟨2, _, _, rfl, rfl, by decide +kernel, by decide +kernel⟩

/-! ## 5. Beats of a power of two of seconds -/

end Schedule

section

variable {p d p' d' : ℚ} {k : ℤ} {e next : Event Float}

/-- A number of beats takes the same places as its seconds. -/
theorem seconds_eq (hk : Audible (2 ^ k)) {v w s : ℚ} (hw : Nearest v w) (hv : v = 0 ∨ 1 / 4 ≤ v)
    (hs : Nearest (v * 2 ^ k) s) : s = w * 2 ^ k := by
  have hpos : 0 ≤ v := by
    rcases hv with rfl | hge
    · exact le_rfl
    · linarith
  refine hs.unique (hw.mul_two_zpow k hpos (hv.imp_right fun hge => ⟨?_, ?_⟩)) (by positivity)
  · calc (2 : ℚ) ^ (-1022 : ℤ) ≤ 2 ^ (-2 : ℤ) :=
          zpow_le_zpow_right₀ (by norm_num) (by norm_num)
      _ = 1 / 4 := by norm_num
      _ ≤ v := hge
  · exact least_le.trans (hk.le_mul hge)

/-- The end of an event is the start of the next one, also where both are infinite. -/
theorem Event.PlacedAt.end_eq_next (he : e.PlacedAt (2 ^ k) p d) (hnext : next.PlacedAt (2 ^ k) p' d')
    (hk : Audible (2 ^ k)) (hp : Position p) (hd : Beats d) (hp' : Position p')
    (hmoved : Nearest (p + d) p') :
    ∃ q, StandsAt e.endSeconds q ∧ StandsAt next.timeSeconds q := by
  obtain ⟨s, l, q, hs, hl, hq, hl0, hs0, -, hend⟩ := he.exists_end hk hp hd
  obtain ⟨⟨s', hs', hstart'⟩, -⟩ := hnext
  have hunit : (0 : ℚ) < 2 ^ k := by positivity
  have hsvalue : s = p * 2 ^ k := seconds_eq hk hp.kept hp.apart hs
  have hlvalue : l = d * 2 ^ k := seconds_eq hk hd.kept (.inr hd.low) hl
  have hs'value : s' = p' * 2 ^ k := seconds_eq hk hp'.kept hp'.apart hs'
  have hpp' : p ≤ p' := hp.kept.mono hmoved hp.nonneg (by linarith [hd.nonneg])
  have hdp' : d ≤ p' := hd.kept.mono hmoved hd.nonneg (by linarith [hp.nonneg])
  have hsle : s ≤ s' := by rw [hsvalue, hs'value]; gcongr
  have hlle : l ≤ s' := by rw [hlvalue, hs'value]; gcongr
  suffices hsame : clip q = clip s' by
    rw [← hsame] at hstart'
    exact ⟨clip q, hend, hstart'⟩
  by_cases hfinite : clip s < limit ∧ clip l < limit
  · have hpart : 0 ≤ s := by rw [hsvalue]; exact mul_nonneg hp.nonneg hunit.le
    have hpart' : 0 ≤ l := by rw [hlvalue]; exact mul_nonneg hd.nonneg hunit.le
    rw [clip_of_le_of_clip_lt hpart le_rfl hfinite.1, clip_of_le_of_clip_lt hpart' le_rfl hfinite.2,
      hsvalue, hlvalue, ← add_mul] at hq
    have hsum := seconds_eq hk hmoved (.inr (by linarith [hp.nonneg, hd.low])) hq
    exact congrArg clip (hsum.trans hs'value.symm)
  · -- one part is infinite already, and so is the next start
    have hlate : limit ≤ s' ∧ limit ≤ clip s + clip l := by
      rcases not_and_or.mp hfinite with hover | hover
      · exact ⟨(not_lt.mp (mt clip_lt_limit_iff.mpr hover)).trans hsle, by linarith [not_lt.mp hover]⟩
      · exact ⟨(not_lt.mp (mt clip_lt_limit_iff.mpr hover)).trans hlle, by linarith [not_lt.mp hover]⟩
    have hbound : overflowBound ≤ clip s + clip l :=
      (sub_le_self limit halfStep_pos.le).trans hlate.2
    have hlimit : limit ≤ q := nearest_overflowBound.mono hq overflowBound_pos.le hbound
    rw [clip_of_le hlimit, clip_of_le hlate.1]

end

/-- Where a beat lasts a power of two of seconds, as at sixty or at a hundred and twenty beats a
minute, every event ends when the next one starts, and there is a note at every time up to the end. -/
theorem Schedule.note_throughout_of_two_zpow {tempo : Tempo} {j : ℤ}
    (hbpm : StandsAt tempo.bpm (15 * 2 ^ j))
    (hfinite : (secondsPerBeat tempo.bpm).isFinite = true) (doc : Document) {time : Float}
    (hnonneg : 0 ≤ time) (htotal : time < totalDuration (events tempo.bpm doc)) :
    activeNote? (events tempo.bpm doc) time ≠ none := by
  obtain ⟨b, σ, hb, hlow, hnearest, hσ, hclock⟩ := exists_onClock hfinite doc
  obtain rfl := hb.eq hbpm
  have hpower : 60 / (15 * (2 : ℚ) ^ j) = 2 ^ (2 - j) := by
    rw [zpow_sub₀ (by norm_num)]
    field_simp
    norm_num
  rw [hpower] at hlow hnearest
  have hleast : -1019 ≤ 2 - j := (zpow_le_zpow_iff_right₀ (by norm_num)).mp hlow
  obtain rfl : σ = 2 ^ (2 - j) :=
    hnearest.unique (nearest_two_zpow (by omega)) (by positivity)
  intro hnone
  obtain ⟨k, e, next, he, hnext, hover, hwaits⟩ :=
    (activeNote?_eq_none_iff_of_onClock hclock hσ hnonneg htotal).mp hnone
  obtain ⟨p, d, hp, hd, hplaced, hfollows⟩ := hclock.placedAt he
  obtain ⟨p', d', hmoved, hp', -, hplaced'⟩ := hfollows next hnext
  obtain ⟨q, hend, hstart⟩ := hplaced.end_eq_next hplaced' hσ hp hd hp' hmoved
  exact lt_irrefl q ((hend.lt_iff hstart).mp (float_lt_of_le_of_lt hover hwaits))

/-- At the standard tempo no note is missed. -/
theorem Schedule.note_throughout_at_standard_tempo (doc : Document) {time : Float}
    (hnonneg : 0 ≤ time) (htotal : time < totalDuration (events Tempo.standard.bpm doc)) :
    activeNote? (events Tempo.standard.bpm doc) time ≠ none := by
  have hbpm : StandsAt Tempo.standard.bpm (15 * 2 ^ (3 : ℤ)) := by
    have hsame : Tempo.standard.bpm = Float.ofNat 120 := by decide +kernel
    have hvalue : (15 : ℚ) * 2 ^ (3 : ℤ) = (120 : ℕ) := by norm_num
    rw [hsame, hvalue]
    exact standsAt_ofNat (by decide)
  exact note_throughout_of_two_zpow hbpm (by decide +kernel) doc hnonneg htotal

end TextScore

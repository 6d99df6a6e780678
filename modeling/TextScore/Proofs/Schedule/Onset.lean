import Mathlib
import TextScore.Proofs.Decimal.Arithmetic
import TextScore.Proofs.Notation.Fullness
import TextScore.Proofs.Schedule.Clock

/-!
# Onset — the clock in doubles

The clock counts beats, and every time is a number of beats multiplied by the seconds of one.  Beats
are never lost in rounding altogether nor do they run away; but the seconds of a beat may be too many
for a double although the tempo is one.  Then already the first note, which should start at nothing,
starts at no time at all.
-/

namespace TextScore

open Decimal

/-! ## 1. Seconds per beat -/

theorem standsAt_ofNat {n : ℕ} (hn : n < 2 ^ 53) : StandsAt (Float.ofNat n) n :=
  (denotes_ofNat hn).standsAt

theorem Tempo.exists_standsAt (tempo : Tempo) :
    ∃ b, StandsAt tempo.bpm b ∧ 0 < b ∧ b < limit := by
  obtain ⟨hfinite, hpositive⟩ : tempo.bpm.isFinite = true ∧ 0 < tempo.bpm := by
    have h := tempo.positive
    unfold Scalar.isPositive at h
    exact (Bool.and_eq_true_iff.mp h).imp id of_decide_eq_true
  obtain ⟨z, b, hz, hb, hlt⟩ := exists_standsAt_of_lt hpositive
  rw [hz.eq standsAt_zero] at hlt
  refine ⟨b, hb, hlt, ?_⟩
  rwa [hb.isFinite_iff, abs_of_pos hlt] at hfinite

theorem le_sixty_div {b : ℚ} (hpos : 0 < b) (hlt : b < limit) : 2 ^ (-1019 : ℤ) ≤ 60 / b := by
  rw [le_div_iff₀ hpos]
  calc (2 : ℚ) ^ (-1019 : ℤ) * b ≤ 2 ^ (-1019 : ℤ) * limit := by gcongr
    _ = 2 ^ (5 : ℤ) := by rw [limit, ← zpow_add₀ (by norm_num)]; rfl
    _ ≤ 60 := by norm_num

/-- The seconds of a beat are far from nothing, but may be too many for a double. -/
theorem exists_secondsPerBeat {bpm : Float} {b : ℚ} (hbpm : StandsAt bpm b) (hpos : 0 < b)
    (hlt : b < limit) :
    ∃ w, Nearest (60 / b) w ∧ 2 ^ (-1019 : ℤ) ≤ w ∧ StandsAt (secondsPerBeat bpm) (clip w) := by
  have hsixty : StandsAt (Float.ofNat 60) (60 : ℕ) := standsAt_ofNat (by decide)
  have hmany : |((60 : ℕ) : ℚ)| < limit := hsixty.isFinite_iff.mp (by decide)
  have hfinite : |b| < limit := lt_of_eq_of_lt (abs_of_pos hpos) hlt
  obtain ⟨w, hw, hstands⟩ := hsixty.exists_div hbpm hmany hfinite hpos.ne'
  rw [Nat.cast_ofNat] at hw
  refine ⟨w, hw, ?_, hstands⟩
  exact (nearest_two_zpow (by decide)).mono hw (by positivity) (le_sixty_div hpos hlt)

/-! ## 2. Positions -/

/-- A number of beats that the clock may have counted. -/
structure Position (p : ℚ) : Prop where
  kept : Nearest p p
  le : p ≤ 2 ^ 60
  apart : p = 0 ∨ 1 / 4 ≤ p

/-- A number of beats that a note may have. -/
structure Beats (d : ℚ) : Prop where
  kept : Nearest d d
  low : 1 / 4 ≤ d
  high : d ≤ 4

theorem beats_sixteenths (d : Duration) : Beats ((d.sixteenths : ℚ) / 4) where
  kept := (Notation.denotes_beats d).standsAt.nearest
  low := by cases d <;> norm_num [Duration.sixteenths]
  high := by cases d <;> norm_num [Duration.sixteenths]

theorem Position.nonneg {p : ℚ} (h : Position p) : 0 ≤ p := by
  rcases h.apart with rfl | hp
  · exact le_rfl
  · linarith

theorem Beats.nonneg {d : ℚ} (h : Beats d) : 0 ≤ d := by
  linarith [h.low]

theorem position_zero : Position 0 :=
  ⟨.zero, by norm_num, .inl rfl⟩

theorem abs_lt_limit {q : ℚ} (hnonneg : 0 ≤ q) (hle : q ≤ 2 ^ 60) : |q| < limit := by
  rw [abs_of_nonneg hnonneg]
  refine hle.trans_lt ?_
  rw [← zpow_natCast]
  exact zpow_lt_zpow_right₀ (by norm_num) (by norm_num)

/-- Where a note is too short to move the clock, it stays. -/
theorem nearest_stuck : Nearest (2 ^ 60 + 4) (2 ^ 60) := by
  refine ⟨8, 2 ^ 52, ⟨by decide, ?_, .inr ?_⟩, ⟨?_, fun h => ?_⟩, by norm_num⟩
  · norm_num
  · norm_num
  · norm_num
  · norm_num at h

section

variable {x y : Float} {p d : ℚ}

/-- The clock moves on, but never beyond `2 ^ 60` beats. -/
theorem Position.exists_add (hp : Position p) (hd : Beats d) (hx : StandsAt x p)
    (hy : StandsAt y d) : ∃ p', Nearest (p + d) p' ∧ StandsAt (x + y) p' ∧ Position p' := by
  have hlow := hd.low
  have hnonneg := hp.nonneg
  obtain ⟨p', hp', hsum⟩ := hx.exists_add_of_nonneg hy hnonneg (by linarith)
  have hle : p' ≤ 2 ^ 60 := by
    refine hp'.mono nearest_stuck (by linarith) ?_
    linarith [hp.le, hd.high]
  have hge : 1 / 4 ≤ p' := hlow.trans (hd.kept.mono hp' (by linarith) (by linarith))
  rw [clip_of_lt (abs_lt_limit (by linarith) hle)] at hsum
  exact ⟨p', hp', hsum, hsum.nearest, hle, .inr hge⟩

end

/-! ## 3. Events on the clock -/

/-- The event of a note of `d` beats, `p` beats from the start, when a beat lasts `σ` seconds. -/
structure Event.PlacedAt (e : Event Float) (σ p d : ℚ) : Prop where
  start : ∃ s, Nearest (p * σ) s ∧ StandsAt e.timeSeconds (clip s)
  duration : ∃ l, Nearest (d * σ) l ∧ StandsAt e.durationSeconds (clip l)

/-- Events from a position on, each placed where the clock was moved by the ones before it. -/
inductive OnClock (σ : ℚ) : ℚ → List (Event Float) → Prop
  | nil {p : ℚ} (hp : Position p) : OnClock σ p []
  | cons {p d p' : ℚ} {e : Event Float} {rest : List (Event Float)} (hp : Position p)
      (hd : Beats d) (he : e.PlacedAt σ p d) (hnext : Nearest (p + d) p')
      (hrest : OnClock σ p' rest) : OnClock σ p (e :: rest)

theorem OnClock.exists_first {σ p : ℚ} {events : List (Event Float)} (h : OnClock σ p events)
    {first : Event Float} (hfirst : events[0]? = some first) :
    Position p ∧ ∃ d, Beats d ∧ first.PlacedAt σ p d := by
  cases h with
  | nil => cases hfirst
  | cons hp hd hplaced _ _ =>
    obtain rfl := Option.some.inj hfirst
    exact ⟨hp, _, hd, hplaced⟩

theorem OnClock.standsAt_first {σ : ℚ} {events : List (Event Float)} (h : OnClock σ 0 events)
    {first : Event Float} (hfirst : events[0]? = some first) : StandsAt first.timeSeconds 0 := by
  obtain ⟨-, d, -, ⟨s, hs, hstart⟩, -⟩ := h.exists_first hfirst
  rw [zero_mul] at hs
  rwa [hs.eq_zero, clip_of_lt (lt_of_eq_of_lt abs_zero limit_pos)] at hstart

/-- Each event has a position, and the next one the position to which its beats move the clock. -/
theorem OnClock.placedAt {σ p : ℚ} {events : List (Event Float)} (h : OnClock σ p events) {k : ℕ}
    {e : Event Float} (he : events[k]? = some e) :
    ∃ p d, Position p ∧ Beats d ∧ e.PlacedAt σ p d ∧
      ∀ next, events[k + 1]? = some next →
        ∃ p' d', Nearest (p + d) p' ∧ Position p' ∧ Beats d' ∧ next.PlacedAt σ p' d' := by
  induction h generalizing k with
  | nil => cases he
  | cons hp hd hplaced hmoved hrest ih =>
    cases k with
    | zero =>
      obtain rfl := Option.some.inj he
      refine ⟨_, _, hp, hd, hplaced, fun next hnext => ?_⟩
      obtain ⟨hp', d', hd', hplaced'⟩ := hrest.exists_first hnext
      exact ⟨_, d', hmoved, hp', hd', hplaced'⟩
    | succ k => exact ih he

namespace Schedule

theorem onClock_eventsFrom {spb position : Float} {σ p : ℚ} (hspb : StandsAt spb σ)
    (hσ : 0 < σ) (hlt : σ < limit) (hposition : StandsAt position p) (hp : Position p)
    (notes : List Note) : OnClock σ p (eventsFrom spb position notes) := by
  have hfinite : |σ| < limit := lt_of_eq_of_lt (abs_of_pos hσ) hlt
  induction notes generalizing position p with
  | nil => exact .nil hp
  | cons note rest ih =>
    have hbeats := (Notation.denotes_beats note.duration).standsAt
    have hd := beats_sixteenths note.duration
    have hdlt : |(note.duration.sixteenths : ℚ) / 4| < limit :=
      abs_lt_limit (by linarith [hd.low]) (by linarith [hd.high])
    obtain ⟨p', hnext, hsum, hp'⟩ := hp.exists_add hd hposition hbeats
    refine .cons hp hd ⟨?_, ?_⟩ hnext (ih hsum hp')
    · exact hposition.exists_mul hspb (abs_lt_limit hp.nonneg hp.le) hfinite
    · exact hbeats.exists_mul hspb hdlt hfinite

/-! ## 4. Starts -/

theorem onClock_events {bpm : Float} {σ : ℚ} (hspb : StandsAt (secondsPerBeat bpm) σ)
    (hσ : 0 < σ) (hlt : σ < limit) (doc : Document) : OnClock σ 0 (events bpm doc) := by
  rw [events_eq_eventsFrom]
  exact onClock_eventsFrom hspb hσ hlt standsAt_zero position_zero doc.notes

theorem timeSeconds_of_first {bpm : Float} {doc : Document} {first : Event Float}
    (h : (events bpm doc)[0]? = some first) :
    first.timeSeconds = Float.ofNat 0 * secondsPerBeat bpm := by
  rw [events_eq_eventsFrom] at h
  cases hnotes : doc.notes with
  | nil =>
    rw [hnotes] at h
    cases h
  | cons note rest =>
    rw [hnotes] at h
    obtain rfl := Option.some.inj h
    rfl

/-- Nothing times infinity is no number. -/
theorem isNaN_zero_mul {x : Float} (h : StandsAt x limit) : (Float.ofNat 0 * x).isNaN = true := by
  have hzero : (Float.ofNat 0).toModel.unpack = .zero .positive := rfl
  show (Float.Model.pack (.mul .binary64 (Float.ofNat 0).toModel.unpack x.toModel.unpack)).unpack.isNaN
    = true
  rw [hzero, h.eq_infinity]
  rfl

/-- What a tempo makes of the seconds of a beat, and of the starts of a schedule.  Every tempo gives a
schedule, but the seconds of a beat are finite only as long as sixty divided by the tempo is below the
overflow bound.  Then the first note starts at nothing and every start is a number; otherwise the
first start is none. -/
theorem starts_at_tempo (tempo : Tempo) (doc : Document) :
    ∃ b, StandsAt tempo.bpm b ∧ 0 < b ∧
      schedule doc tempo.bpm = .ok (events tempo.bpm doc) ∧
      0 < secondsPerBeat tempo.bpm ∧
      ((secondsPerBeat tempo.bpm).isFinite = true ↔ 60 / b < overflowBound) ∧
      (60 / b < overflowBound →
        (∀ first, (events tempo.bpm doc)[0]? = some first → StandsAt first.timeSeconds 0) ∧
        ∀ e ∈ events tempo.bpm doc, e.timeSeconds.isNaN = false) ∧
      (overflowBound ≤ 60 / b →
        ∀ first, (events tempo.bpm doc)[0]? = some first → first.timeSeconds.isNaN = true) := by
  obtain ⟨b, hb, hpos, hlt⟩ := tempo.exists_standsAt
  obtain ⟨w, hnearest, hlow, hspb⟩ := exists_secondsPerBeat hb hpos hlt
  have hw : 0 < w := lt_of_lt_of_le (by positivity) hlow
  have hbound : w < limit ↔ 60 / b < overflowBound := hnearest.lt_limit_iff (by positivity)
  refine ⟨b, hb, hpos, ?_, ?_, ?_, fun hfinite => ?_, fun hover first hfirst => ?_⟩
  · unfold schedule Tempo.ofBpm
    rw [dif_pos tempo.positive]
    rfl
  · exact (standsAt_zero.lt_iff hspb).mpr (clip_pos hw)
  · rw [hspb.isFinite_iff, abs_of_pos (clip_pos hw), clip_lt_limit_iff, hbound]
  · have hwlt := hbound.mpr hfinite
    rw [clip_of_lt (lt_of_eq_of_lt (abs_of_pos hw) hwlt)] at hspb
    have hclock := onClock_events hspb hw hwlt doc
    refine ⟨fun first hfirst => hclock.standsAt_first hfirst, fun e he => ?_⟩
    obtain ⟨k, hk⟩ := List.mem_iff_getElem?.mp he
    obtain ⟨p, d, -, -, ⟨⟨s, -, hstart⟩, -⟩, -⟩ := hclock.placedAt hk
    exact hstart.isNaN
  · rw [clip_of_le (not_lt.mp (mt hbound.mp (not_lt.mpr hover)))] at hspb
    rw [timeSeconds_of_first hfirst]
    exact isNaN_zero_mul hspb

/-- A tempo of less than a beat in any time that a double can tell. -/
def standstill : Tempo := ⟨1e-310, by decide +kernel⟩

def wholeNote : Document :=
  ⟨⟨1⟩, "Whole", standstill, [⟨⟨1⟩, .common, [⟨⟨1⟩, .pitched ⟨.C, .natural, 4⟩, .whole⟩]⟩]⟩

/-- The schedule is made of infinite seconds per beat, and its first start is no number. -/
theorem standstill_never_starts :
    Scalar.isPositive standstill.bpm = true ∧
      schedule wholeNote standstill.bpm = .ok wholeNote.schedule ∧
      (secondsPerBeat standstill.bpm).isFinite = false ∧
      ∃ first, wholeNote.schedule[0]? = some first ∧ first.timeSeconds.isNaN = true := by
  obtain ⟨b, -, -, hschedule, -, hfinite, -, hover⟩ := starts_at_tempo standstill wholeNote
  have hinfinite : (secondsPerBeat standstill.bpm).isFinite = false := by decide +kernel
  rw [hinfinite] at hfinite
  have hbound : overflowBound ≤ 60 / b := not_lt.mp fun hlt => Bool.false_ne_true (hfinite.mpr hlt)
  exact ⟨standstill.positive, hschedule, hinfinite, _, rfl, hover hbound _ rfl⟩

end Schedule

end TextScore

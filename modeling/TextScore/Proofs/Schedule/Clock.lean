import Mathlib
import TextScore.Scalar
import TextScore.Schedule

/-!
# Clock — one clock for all notes

The rationals are scalars too, and every operation on them is exact: what a definition over scalars
says of rationals is what it means before a double rounds anything.  A schedule over them has no
rounding, and the position of the clock is the number of beats gone by.  A run of notes moves the
clock on by its length, wherever it starts, and a bar line leaves it alone.  So each note starts when
all notes before it are over, and nothing is left between two events.
-/

namespace TextScore

/-! ## 1. Scalars without rounding -/

instance : Scalar ℚ where
  nothing := 0
  ofNat n := n
  larger := max
  isPositive x := 0 < x

namespace Scalar

@[simp] theorem nothing_rat : (nothing : ℚ) = 0 := rfl

@[simp] theorem ofNat_rat (n : ℕ) : (ofNat n : ℚ) = n := rfl

/-- Without rounding it makes no difference from which side terms are added. -/
theorem sum_rat (xs : List ℚ) : sum xs = xs.sum :=
  List.sum_eq_foldl.symm

end Scalar

/-! ## 2. Beats -/

theorem Duration.beats_rat (d : Duration) : (d.beats : ℚ) = d.sixteenths / 4 := rfl

theorem Duration.beats_rat_pos (d : Duration) : (0 : ℚ) < d.beats := by
  rw [beats_rat]
  cases d <;> norm_num [sixteenths]

theorem totalBeats_rat (notes : List Note) :
    (totalBeats notes : ℚ) = (notes.map fun note => (note.duration.beats : ℚ)).sum :=
  Scalar.sum_rat _

theorem totalBeats_nil : (totalBeats [] : ℚ) = 0 := rfl

theorem totalBeats_cons (note : Note) (rest : List Note) :
    (totalBeats (note :: rest) : ℚ) = note.duration.beats + totalBeats rest := by
  rw [totalBeats_rat, totalBeats_rat, List.map_cons, List.sum_cons]

theorem totalBeats_take_succ {notes : List Note} {k : ℕ} {note : Note}
    (h : notes[k]? = some note) :
    (totalBeats (notes.take (k + 1)) : ℚ) = totalBeats (notes.take k) + note.duration.beats := by
  have htake : notes.take (k + 1) = notes.take k ++ [note] := by
    rw [List.take_add_one, h, Option.toList_some]
  rw [htake, totalBeats_rat, totalBeats_rat, List.map_append, List.sum_append, List.map_singleton,
    List.sum_singleton]

/-! ## 3. What events tell -/

/-- The event is that of this note, whenever it sounds. -/
structure Event.TellsOf {α : Type} (e : Event α) (note : Note) : Prop where
  noteId : e.noteId = note.id
  pitch : e.pitch = note.kind.pitch?
  isRest : e.isRest = true ↔ note.kind = .rest

namespace Schedule

/-- Each note has one event, whatever numbers the clock counts in. -/
theorem tellsOf_eventsFrom {α : Type} [Scalar α] (secondsPerBeat position : α)
    (notes : List Note) :
    List.Forall₂ Event.TellsOf (eventsFrom secondsPerBeat position notes) notes := by
  induction notes generalizing position with
  | nil => exact .nil
  | cons note rest ih => exact .cons ⟨rfl, rfl, decide_eq_true_iff⟩ (ih _)

/-! ## 4. Bar lines -/

section

variable {α : Type} [Scalar α] (secondsPerBeat position : α)

/-- A run of notes behind another one starts where the first one ends. -/
theorem eventsFrom_append (notes later : List Note) :
    eventsFrom secondsPerBeat position (notes ++ later) =
      eventsFrom secondsPerBeat position notes ++
        eventsFrom secondsPerBeat (positionAfter position notes) later := by
  induction notes generalizing position with
  | nil => rfl
  | cons note rest ih => exact congrArg (_ :: ·) (ih _)

/-- Measures one behind the other sound as their notes would without bar lines. -/
theorem eventsAcross_eq_eventsFrom (measures : List Measure) :
    eventsAcross secondsPerBeat position measures =
      eventsFrom secondsPerBeat position (measures.flatMap (·.notes)) := by
  induction measures generalizing position with
  | nil => rfl
  | cons m rest ih => rw [eventsAcross, ih, List.flatMap_cons, eventsFrom_append]

theorem events_eq_eventsFrom (bpm : α) (doc : Document) :
    events bpm doc = eventsFrom (TextScore.secondsPerBeat bpm) (Scalar.ofNat 0) doc.notes :=
  eventsAcross_eq_eventsFrom _ _ doc.measures

/-- Each note of a document has one event. -/
theorem tellsOf_events (bpm : α) (doc : Document) :
    List.Forall₂ Event.TellsOf (events bpm doc) doc.notes := by
  rw [events_eq_eventsFrom]
  exact tellsOf_eventsFrom _ _ doc.notes

end

/-! ## 5. The running clock -/

theorem secondsPerBeat_rat (bpm : ℚ) : secondsPerBeat bpm = 60 / bpm := rfl

/-- The event of a note that starts when `position` beats have gone by. -/
def eventAt (bpm position : ℚ) (note : Note) : Event ℚ where
  timeSeconds := 60 / bpm * position
  durationSeconds := 60 / bpm * note.duration.beats
  pitch := note.kind.pitch?
  noteId := note.id
  isRest := note.kind = .rest

theorem endSeconds_eventAt (bpm position : ℚ) (note : Note) :
    (eventAt bpm position note).endSeconds = 60 / bpm * (position + note.duration.beats) :=
  (mul_add _ _ _).symm

theorem eventsFrom_cons (bpm position : ℚ) (note : Note) (rest : List Note) :
    eventsFrom (secondsPerBeat bpm) position (note :: rest) =
      eventAt bpm position note ::
        eventsFrom (secondsPerBeat bpm) (position + note.duration.beats) rest := by
  rw [eventsFrom, secondsPerBeat_rat]
  simp only [eventAt, mul_comm (60 / bpm)]

/-- Each event stands on the clock where the notes before it have moved it. -/
theorem getElem?_eventsFrom (bpm position : ℚ) (notes : List Note) (k : ℕ) :
    (eventsFrom (secondsPerBeat bpm) position notes)[k]? =
      notes[k]?.map (eventAt bpm (position + totalBeats (notes.take k))) := by
  -- the first note moves the clock on before the others run
  induction notes generalizing position k with
  | nil => rfl
  | cons note rest ih =>
    rw [eventsFrom_cons]
    cases k with
    | zero => rw [List.take_zero, totalBeats_nil, add_zero]; rfl
    | succ k =>
      rw [List.getElem?_cons_succ, List.getElem?_cons_succ, ih, List.take_succ_cons,
        totalBeats_cons, add_assoc]

theorem getElem?_events (bpm : ℚ) (doc : Document) (k : ℕ) :
    (events bpm doc)[k]? =
      doc.notes[k]?.map (eventAt bpm (totalBeats (doc.notes.take k))) := by
  have h := getElem?_eventsFrom bpm 0 doc.notes k
  rw [zero_add] at h
  rw [events_eq_eventsFrom]
  exact h

theorem length_events (bpm : ℚ) (doc : Document) :
    (events bpm doc).length = doc.notes.length :=
  (tellsOf_events bpm doc).length_eq

theorem totalDuration_events (bpm : ℚ) (doc : Document) :
    totalDuration (events bpm doc) = 60 / bpm * totalBeats doc.notes := by
  unfold totalDuration
  rw [List.getLast?_eq_getElem?, length_events, getElem?_events]
  cases hlast : doc.notes[doc.notes.length - 1]? with
  | none =>
    -- only without notes there is no last one
    have hnil : doc.notes = [] := by
      have := List.getElem?_eq_none_iff.mp hlast
      rw [← List.length_eq_zero_iff]
      omega
    rw [hnil, totalBeats_nil, mul_zero]
    rfl
  | some last =>
    -- the notes before the last one and the last one are all notes
    have hpos : doc.notes.length - 1 + 1 = doc.notes.length := by
      have := (List.getElem?_eq_some_iff.mp hlast).1
      omega
    have hall : (totalBeats doc.notes : ℚ) =
        totalBeats (doc.notes.take (doc.notes.length - 1)) + last.duration.beats := by
      rw [← totalBeats_take_succ hlast, hpos, List.take_length]
    rw [hall]
    exact endSeconds_eventAt _ _ _

end Schedule

/-! ## 6. The schedule of a document -/

/-- The event plays this note when the notes before it are over. -/
structure Event.Plays (e : Event ℚ) (bpm : ℚ) (before : List Note) (note : Note) : Prop where
  timeSeconds : e.timeSeconds = 60 / bpm * totalBeats before
  durationSeconds : e.durationSeconds = 60 / bpm * note.duration.beats
  noteId : e.noteId = note.id
  pitch : e.pitch = note.kind.pitch?
  isRest : e.isRest = true ↔ e.pitch = none

namespace Schedule

theorem plays_eventAt (bpm : ℚ) (before : List Note) (note : Note) :
    (eventAt bpm (totalBeats before) note).Plays bpm before note where
  timeSeconds := rfl
  durationSeconds := rfl
  noteId := rfl
  pitch := rfl
  isRest := by
    unfold eventAt
    cases note.kind <;> simp [NoteKind.pitch?]

/-- A schedule is the notes in the order they are played, on one clock from the first to the last:
where the bar lines are, and what the signatures say, makes no difference. -/
theorem events_on_one_clock {bpm : ℚ} (hbpm : 0 < bpm) (doc : Document) :
    let played := events bpm doc
    played.length = doc.notes.length ∧
      (∀ k note, doc.notes[k]? = some note →
        ∃ e : Event ℚ, played[k]? = some e ∧ e.Plays bpm (doc.notes.take k) note) ∧
      (∀ k e next, played[k]? = some e → played[k + 1]? = some next →
        e.endSeconds = next.timeSeconds ∧ e.timeSeconds < next.timeSeconds) ∧
      (∀ last, played.getLast? = some last → last.endSeconds = totalDuration played) ∧
      totalDuration played = 60 / bpm * totalBeats doc.notes ∧
      ∀ other : Document, other.notes = doc.notes → events bpm other = played := by
  intro played
  refine ⟨length_events bpm doc, ?_, ?_, ?_, totalDuration_events bpm doc, ?_⟩
  · intro k note hnote
    refine ⟨eventAt bpm (totalBeats (doc.notes.take k)) note, ?_, plays_eventAt _ _ _⟩
    rw [getElem?_events, hnote, Option.map_some]
  · intro k e next he hnext
    rw [getElem?_events] at he hnext
    obtain ⟨note, hnote, rfl⟩ := Option.map_eq_some_iff.mp he
    obtain ⟨note', -, rfl⟩ := Option.map_eq_some_iff.mp hnext
    have hend : (eventAt bpm (totalBeats (doc.notes.take k)) note).endSeconds =
        (eventAt bpm (totalBeats (doc.notes.take (k + 1))) note').timeSeconds := by
      rw [endSeconds_eventAt, ← totalBeats_take_succ hnote]
      rfl
    refine ⟨hend, ?_⟩
    rw [← hend, endSeconds_eventAt]
    exact mul_lt_mul_of_pos_left (lt_add_of_pos_right _ note.duration.beats_rat_pos)
      (div_pos (by norm_num) hbpm)
  · intro last hlast
    unfold totalDuration
    rw [hlast]
  · intro other hother
    rw [events_eq_eventsFrom, hother, ← events_eq_eventsFrom]

/-- An overfull measure of 3/4 and one of 4/4, with a rest between two notes. -/
def crossing : Document :=
  ⟨⟨1⟩, "Crossing", .standard,
    [⟨⟨1⟩, ⟨3, 4⟩, [⟨⟨1⟩, .pitched ⟨.C, .sharp, 4⟩, .whole⟩, ⟨⟨2⟩, .rest, .eighth⟩]⟩,
      ⟨⟨2⟩, .common, [⟨⟨3⟩, .pitched ⟨.D, .natural, 4⟩, .quarter⟩]⟩]⟩

/-- The note behind the bar line starts four and a half beats into the document. -/
theorem crossing_on_one_clock :
    (0 : ℚ) < 90 ∧ (events (90 : ℚ) crossing).length = 3 ∧
      (∃ e : Event ℚ, (events (90 : ℚ) crossing)[2]? = some e ∧ e.timeSeconds = 3 ∧
        e.pitch = some ⟨.D, .natural, 4⟩ ∧ e.noteId = ⟨3⟩) ∧
      totalDuration (events (90 : ℚ) crossing) = 11 / 3 := by
  have hbpm : (0 : ℚ) < 90 := by norm_num
  obtain ⟨hlength, hplays, -, -, htotal, -⟩ := events_on_one_clock hbpm crossing
  obtain ⟨e, he, hplayed⟩ := hplays 2 ⟨⟨3⟩, .pitched ⟨.D, .natural, 4⟩, .quarter⟩ rfl
  refine ⟨hbpm, hlength, ⟨e, he, ?_, hplayed.pitch, hplayed.noteId⟩, ?_⟩
  · rw [hplayed.timeSeconds, totalBeats_rat]
    norm_num [crossing, Document.notes, Duration.beats_rat, Duration.sixteenths]
  · rw [htotal, totalBeats_rat]
    norm_num [crossing, Document.notes, Duration.beats_rat, Duration.sixteenths]

end Schedule

end TextScore

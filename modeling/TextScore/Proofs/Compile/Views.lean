import Mathlib
import TextScore.Compile
import TextScore.Proofs.Schedule.Clock
import TextScore.Proofs.Staff.Places

/-!
# Views — what is played, placed and drawn is one document

Compiling derives a schedule, a list of placed notes and a staff from one document, each by a walk of
its own.  The walks meet the notes in the same order: the entries of the same index are of the same
note, and the place that is given for it is where it stands in the document.
-/

namespace TextScore

open Notation (parse)

/-- All entries are of this note of the document, and the place is where it stands. -/
structure Compiled.Shows (c : Compiled) (note : Note) (event : Event Float) (placed : PlacedNote) :
    Prop where
  told : event.TellsOf note
  listed : placed.note = note
  stands : c.document.noteAt? placed.measureIndex placed.indexInMeasure = some note

/-- The views of a compiled text agree with its document, and so with one another. -/
structure Compiled.ViewsAgree (c : Compiled) : Prop where
  length_schedule : c.schedule.length = c.document.noteCount
  length_notes : c.notes.length = c.document.noteCount
  shows : ∀ (k : ℕ) (note : Note), c.document.notes[k]? = some note →
    ∃ event placed, c.schedule[k]? = some event ∧ c.notes[k]? = some placed ∧
      c.Shows note event placed
  increasing : c.notes.Pairwise PlacedNote.Precedes
  /-- Every place of the document that holds a note is listed, and only once. -/
  places : ∀ i j note, c.document.noteAt? i j = some note →
    ∃! k : ℕ, (c.notes.map PlacedNote.place)[k]? = some (i, j)
  length_measureWidths : c.layout.measureWidths.length = max 1 c.document.measures.length
  drawn : ∀ placed ∈ c.notes, ∃ width x,
    c.layout.measureWidths[placed.measureIndex]? = some width ∧
      c.layout.measureX? placed.measureIndex = some x

namespace Compile

section

variable {style : StaffStyle Float} {container : Float} {output : ParseOutput} {c : Compiled}

theorem finish_eq_ok (h : finish style container output = .ok c) :
    c.schedule = c.document.schedule ∧ c.notes = c.document.placedNotes ∧
      c.layout = Staff.geometry style container c.document.measures := by
  unfold finish at h
  split at h
  · cases h
  · cases h
    exact ⟨rfl, rfl, rfl⟩

/-- Events and placed notes come in the order of the notes, so the same index is the same note. -/
theorem exists_shows (h : finish style container output = .ok c) {k : ℕ} {note : Note}
    (hnote : c.document.notes[k]? = some note) :
    ∃ event placed, c.schedule[k]? = some event ∧ c.notes[k]? = some placed ∧
      c.Shows note event placed := by
  obtain ⟨hschedule, hnotes, -⟩ := finish_eq_ok h
  have hevents : List.Forall₂ Event.TellsOf c.schedule c.document.notes := by
    rw [hschedule]
    exact Schedule.tellsOf_events _ _
  obtain ⟨hk, hget⟩ := List.getElem?_eq_some_iff.mp hnote
  have hk' : k < c.schedule.length := hevents.length_eq ▸ hk
  have htold : c.schedule[k].TellsOf note := hget ▸ hevents.get hk' hk
  -- the placed note of the same index is the note with a place, which is its own
  have hlisted : c.notes[k]?.map PlacedNote.note = some note := by
    rw [hnotes, ← List.getElem?_map, map_note_placedNotes, hnote]
  obtain ⟨placed, hplaced, hsame⟩ := Option.map_eq_some_iff.mp hlisted
  have hmem : placed ∈ c.document.placedNotes := hnotes ▸ List.mem_of_getElem? hplaced
  refine ⟨c.schedule[k], placed, List.getElem?_eq_getElem hk', hplaced, htold, hsame, ?_⟩
  rw [(mem_placedNotes_iff _).mp hmem, hsame]

theorem viewsAgree_of_finish (h : finish style container output = .ok c) : c.ViewsAgree := by
  obtain ⟨hschedule, hnotes, hlayout⟩ := finish_eq_ok h
  have hwidths : c.layout.measureWidths.length = max 1 c.document.measures.length := by
    rw [hlayout]
    exact length_measureWidths style container c.document.measures
  constructor
  case length_schedule =>
    rw [hschedule]
    rw [c.document.noteCount_eq_length_notes]
    exact (Schedule.tellsOf_events _ c.document).length_eq
  case length_notes =>
    rw [hnotes, c.document.noteCount_eq_length_notes, ← map_note_placedNotes, List.length_map]
  case shows => exact fun k note hnote => exists_shows h hnote
  case increasing =>
    rw [hnotes]
    exact placedNotes_increasing c.document
  case places =>
    intro i j note hnote
    rw [hnotes]
    exact existsUnique_place c.document hnote
  case length_measureWidths => exact hwidths
  case drawn =>
    -- a measure that holds a note is one of those that have a width
    intro placed hmem
    rw [hnotes, mem_placedNotes_iff] at hmem
    obtain ⟨m, hm, -⟩ := Option.bind_eq_some_iff.mp hmem
    obtain ⟨hmeasure, -⟩ := List.getElem?_eq_some_iff.mp hm
    exact exists_measureX? (by omega)

end

end Compile

/-- Whatever text is compiled, its schedule, its placed notes and its staff are views of the one
document. -/
theorem compile_viewsAgree {options : ParseOptions} {container : Float} {text : String}
    {c : Compiled} (h : compile options container text = .ok c) : c.ViewsAgree :=
  Compile.viewsAgree_of_finish h

/-- Three notes in two measures, with a blank line between them and a pair that is left out. -/
def duoText : String := "C4 q R h\n\n3/4 | Z9 w D#5 e"

theorem duoText_viewsAgree :
    ∃ c, compile .none 800 duoText = .ok c ∧ c.schedule.length = 3 ∧
      c.notes.map PlacedNote.place = [(0, 0), (0, 1), (1, 0)] ∧
      (∃ event, c.schedule[2]? = some event ∧ event.noteId = ⟨3⟩ ∧
        event.pitch = some ⟨.D, .sharp, 5⟩) ∧
      c.layout.measureWidths.length = 2 := by
  have hread : (parse .none duoText).document.map (·.measures) = some
      [⟨⟨1⟩, .common, [⟨⟨1⟩, .pitched ⟨.C, .natural, 4⟩, .quarter⟩, ⟨⟨2⟩, .rest, .half⟩]⟩,
        ⟨⟨2⟩, ⟨3, 4⟩, [⟨⟨3⟩, .pitched ⟨.D, .sharp, 5⟩, .eighth⟩]⟩] := by decide
  obtain ⟨doc, hdoc, hmeasures⟩ := Option.map_eq_some_iff.mp hread
  obtain ⟨c, hc, rfl⟩ : ∃ c, compile .none 800 duoText = .ok c ∧ c.document = doc := by
    unfold compile Compile.finish
    rw [hdoc]
    exact ⟨_, rfl, rfl⟩
  have hviews : c.ViewsAgree := compile_viewsAgree hc
  have hnotes : c.document.notes = [⟨⟨1⟩, .pitched ⟨.C, .natural, 4⟩, .quarter⟩,
      ⟨⟨2⟩, .rest, .half⟩, ⟨⟨3⟩, .pitched ⟨.D, .sharp, 5⟩, .eighth⟩] := by
    unfold Document.notes
    rw [hmeasures]
    rfl
  obtain ⟨event, placed, hevent, -, hshows⟩ := hviews.shows 2 _ (by rw [hnotes]; rfl)
  refine ⟨c, hc, ?_, ?_, ⟨event, hevent, hshows.told.noteId, hshows.told.pitch⟩, ?_⟩
  · rw [hviews.length_schedule, c.document.noteCount_eq_length_notes, hnotes]
    rfl
  · rw [(Compile.finish_eq_ok hc).2.1, Document.placedNotes, hmeasures]
    rfl
  · rw [hviews.length_measureWidths, hmeasures]
    rfl

end TextScore

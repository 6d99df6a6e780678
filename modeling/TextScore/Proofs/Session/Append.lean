import Mathlib
import TextScore.Proofs.Edit.Effect
import TextScore.Proofs.Notation.Extension
import TextScore.Proofs.Session.Agreement

/-!
# Append — a note that is appended and written to the text

A note comes into a session from outside, with any octave a pitch can have, and is printed without
being asked whether it can be read.  So whether the text still says what the session shows depends
on that note alone: with one octave digit, or as a rest, it is read back, and with any other octave
the text is that of the document without the note and with a place that cannot be read.
-/

namespace TextScore

/-- The notes of a document, whatever they are called, are a matter of its content. -/
theorem Document.map_notes_eq_flatMap_content (doc : Document) :
    (doc.notes.map fun note => (note.kind, note.duration)) = doc.content.flatMap (·.2) := by
  unfold notes content Measure.content
  rw [List.map_flatMap, List.flatMap_map]

namespace Session

open Notation

/-- This reading is of the document of the session and ends in this note, and nothing had to be
dropped for it. -/
structure DescribedBy (s : Session) (read : ParseOutput) (kind : NoteKind) (duration : Duration) :
    Prop where
  clean : read.diagnostics = []
  same : ∃ doc again, s.document? = some doc ∧ read.document = some again ∧
    again.sameContent doc = true
  last : ∀ again ∈ read.document,
    (again.notes.getLast?.map fun note => (note.kind, note.duration)) = some (kind, duration)

/-- With a measure to append to, a name is drawn and the document is rewritten with the note. -/
theorem appendNote_of_document {s : Session} {doc : Document} (hdoc : doc ∈ s.document?)
    (hne : doc.measures ≠ []) (kind : NoteKind) (duration : Duration) :
    s.appendNote kind duration =
      (some s.ids.nextNote.1,
        s.rewritten (doc.append ⟨s.ids.nextNote.1, kind, duration⟩) s.ids.nextNote.2) := by
  have hnew : (appendEdit kind duration doc s.ids).1 ≠ doc := Document.append_ne_self hne _
  unfold appendNote
  rw [if_pos ((canAppend_iff_of_document hdoc).mpr hne), apply_of_ne hdoc hnew]
  rfl

/-- A reading that agrees with the extended document ends in the note. -/
theorem last_of_sameContent {doc again : Document} (hne : doc.measures ≠ []) (note : Note)
    (hsame : again.content = (doc.append note).content) :
    (again.notes.getLast?.map fun note => (note.kind, note.duration)) =
      some (note.kind, note.duration) := by
  rw [← List.getLast?_map, again.map_notes_eq_flatMap_content, hsame,
    ← Document.map_notes_eq_flatMap_content, doc.notes_append hne, List.map_append,
    List.map_singleton, List.getLast?_concat]

/-- Where a reading gives the extended document back if the note can be written, and a diagnostic if
not, it describes the session exactly in the first case. -/
theorem describedBy_iff_of_reading {after : Session} {read : ParseOutput} {doc : Document} {note : Note}
    {missing : Diagnostic} (hne : doc.measures ≠ [])
    (hdocument : after.document? = some (doc.append note))
    (hcontent : read.document.map Document.content =
      some (if note.kind.Legible then (doc.append note).content else doc.content))
    (hdiagnostics : read.diagnostics = if note.kind.Legible then [] else [missing]) :
    after.DescribedBy read note.kind note.duration ↔ note.kind.Legible := by
  constructor
  · intro hdescribed
    by_contra hnot
    have hclean := hdescribed.clean
    rw [hdiagnostics, if_neg hnot] at hclean
    cases hclean
  · intro hlegible
    rw [if_pos hlegible] at hcontent hdiagnostics
    obtain ⟨again, hread, hsame⟩ := Option.map_eq_some_iff.mp hcontent
    refine ⟨hdiagnostics, ⟨_, again, hdocument, hread, decide_eq_true hsame⟩, ?_⟩
    intro other hother
    obtain rfl : again = other := Option.mem_unique hread hother
    exact last_of_sameContent hne note hsame

/-- A note that is appended to a text with a measure gets a name and ends the document.  The text
still describes that document exactly if the note can be written; if not, it is read as the document
from before, with one diagnostic in the place of the note, of which the session knows nothing. -/
theorem appendNote_describedBy_iff (layout : StaffStyle Float) (options reading : ParseOptions)
    (text : String) (kind : NoteKind) (duration : Duration) {doc : Document}
    (hdoc : doc ∈ (start layout options text).document?) (hne : doc.measures ≠ []) :
    let s := start layout options text
    let after := (s.appendNote kind duration).2
    let read := parse reading after.text
    let note : Note := ⟨s.ids.nextNote.1, kind, duration⟩
    (s.appendNote kind duration).1 = some note.id ∧
      after.document? = some (doc.append note) ∧
      (doc.append note).notes.getLast? = some note ∧
      after.output.diagnostics = [] ∧
      (after.DescribedBy read kind duration ↔ kind.Legible) ∧
      (¬kind.Legible →
        (∃ again, read.document = some again ∧ again.sameContent doc = true) ∧
          read.diagnostics = [(Fault.invalidPitch kind.token none).atPlace doc.measures.length
            (some ((measureChars (doc.measures.getLast hne)).length + 2))]) := by
  intro s after read note
  have hagrees : s.Agrees := start_agrees layout options text
  change doc ∈ s.document? at hdoc
  clear_value s
  have happend := appendNote_of_document hdoc hne kind duration
  have hafter : after = s.rewritten (doc.append note) s.ids.nextNote.2 :=
    congrArg Prod.snd happend
  have hdocument : after.document? = some (doc.append note) := by
    rw [hafter]
    rfl
  have hread : read = (parseFrom IdSupply.fresh reading (print (doc.append note))).1 := by
    show parse reading after.text = _
    rw [hafter]
    rfl
  obtain ⟨hcontent, hdiagnostics⟩ :=
    parseFrom_print_append IdSupply.fresh reading (hagrees.legible hdoc) hne note
  rw [← hread] at hcontent hdiagnostics
  refine ⟨congrArg Prod.fst happend, hdocument, ?_, ?_,
    describedBy_iff_of_reading hne hdocument hcontent hdiagnostics, ?_⟩
  · rw [doc.notes_append hne, List.getLast?_concat]
  · rw [hafter]
    rfl
  · intro hnot
    rw [if_neg hnot] at hcontent hdiagnostics
    obtain ⟨again, hagain, hsame⟩ := Option.map_eq_some_iff.mp hcontent
    exact ⟨⟨again, hagain, decide_eq_true hsame⟩, hdiagnostics⟩

/-- The tenth octave takes two digits, so the note that the session shows and names is not in its
text. -/
theorem tenth_octave_is_not_described :
    let kind : NoteKind := .pitched ⟨.C, .natural, 10⟩
    let s := start .standard .none "C4 h"
    let after := (s.appendNote kind .half).2
    (∃ doc ∈ s.document?, doc.measures ≠ []) ∧
      (s.appendNote kind .half).1 = some ⟨2⟩ ∧
      after.text = "C4 h C10 h" ∧ after.output.diagnostics = [] ∧
      ¬after.DescribedBy (parse .none after.text) kind .half ∧
      ((parse .none after.text).diagnostics.map fun d => (d.line, d.column, d.kind)) =
        [(1, some 6, .invalidPitch)] ∧
      (∀ again ∈ (parse .none after.text).document, again.noteCount = 1) := by
  intro kind s after
  obtain ⟨doc, hdoc⟩ : ∃ doc, doc ∈ s.document? := Option.isSome_iff_exists.mp (by decide)
  have hne : doc.measures ≠ [] := by
    have hall : ∀ doc ∈ s.document?, doc.measures ≠ [] := by decide
    exact hall doc hdoc
  obtain ⟨hid, -, -, hclean, hdescribed, -⟩ :=
    appendNote_describedBy_iff .standard .none .none "C4 h" kind .half hdoc hne
  refine ⟨⟨doc, hdoc, hne⟩, hid, by decide, hclean, ?_, by decide, by decide⟩
  intro h
  exact absurd (hdescribed.mp h) (by decide)

end Session

end TextScore

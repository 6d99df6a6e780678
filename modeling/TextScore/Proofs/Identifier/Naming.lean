import Mathlib
import TextScore.Notation.Parse
import TextScore.Proofs.Identifier.Supply
import TextScore.Proofs.Notation.Outline

/-!
# Naming — the names a parse gives

A parse draws one name for every note and every measure of its document, in the order of the text,
and uses each in its place; the document is named last.  A text that yields no document draws
nothing.  What the names are makes no difference to anything else in the output.
-/

namespace TextScore

def Document.noteIds (doc : Document) : List NoteId :=
  doc.notes.map (·.id)

def Document.measureIds (doc : Document) : List MeasureId :=
  doc.measures.map (·.id)

/-- The names of the notes of the document, if there is one. -/
def ParseOutput.noteIds (output : ParseOutput) : List NoteId :=
  output.document.elim [] Document.noteIds

def ParseOutput.measureIds (output : ParseOutput) : List MeasureId :=
  output.document.elim [] Document.measureIds

/-- Every name in the document is the next of its kind behind those of the supply. -/
structure Document.NumberedBehind (ids : IdSupply) (doc : Document) : Prop where
  notes : Consecutive NoteId.number ids.notes doc.noteIds
  measures : Consecutive MeasureId.number ids.measures doc.measureIds
  document : doc.id.number = ids.documents + 1

/-! ## 1. Names taken away -/

/-- The note under the number 0, which nothing is given. -/
def Note.unnamed (note : Note) : Note :=
  { note with id := ⟨0⟩ }

def Measure.unnamed (m : Measure) : Measure :=
  { m with id := ⟨0⟩, notes := m.notes.map Note.unnamed }

def Document.unnamed (doc : Document) : Document :=
  { doc with id := ⟨0⟩, measures := doc.measures.map Measure.unnamed }

def ParseOutput.unnamed (output : ParseOutput) : ParseOutput :=
  { output with document := output.document.map Document.unnamed }

/-- The unnamed measure that says this. -/
def unnamedMeasure (content : TimeSignature × List (NoteKind × Duration)) : Measure :=
  ⟨⟨0⟩, content.1, content.2.map fun note => ⟨⟨0⟩, note.1, note.2⟩⟩

theorem Measure.unnamed_eq (m : Measure) : m.unnamed = unnamedMeasure m.content := by
  unfold unnamed unnamedMeasure content
  rw [List.map_map]
  rfl

/-- Without names, a document is its title, its tempo and its content. -/
theorem Document.unnamed_eq (doc : Document) :
    doc.unnamed = ⟨⟨0⟩, doc.title, doc.tempo, doc.content.map unnamedMeasure⟩ := by
  unfold unnamed content
  rw [List.map_map, List.map_congr_left fun m _ => m.unnamed_eq]
  rfl

namespace Notation

/-! ## 2. What is drawn -/

theorem nameNotes_handsOut (ids : IdSupply) (notes : List (NoteKind × Duration)) :
    ids.HandsOut ((nameNotes ids notes).1.map (·.id)) [] (nameNotes ids notes).2 := by
  -- each draw leaves another supply, so the induction is over all of them
  induction notes generalizing ids with
  | nil => exact .nothing ids
  | cons note rest ih => exact .note (ih ids.nextNote.2)

theorem nameMeasures_handsOut (ids : IdSupply) (ds : List Draft) :
    ids.HandsOut ((nameMeasures ids ds).1.flatMap fun m => m.notes.map (·.id))
      ((nameMeasures ids ds).1.map (·.id)) (nameMeasures ids ds).2 := by
  induction ds generalizing ids with
  | nil => exact .nothing ids
  | cons draft rest ih =>
    exact (nameNotes_handsOut ids draft.notes).append (.measure (ih _))

theorem parseFrom_handsOut (ids : IdSupply) (options : ParseOptions) (text : String) :
    ids.HandsOut (parseFrom ids options text).1.noteIds (parseFrom ids options text).1.measureIds
      (parseFrom ids options text).2 := by
  unfold parseFrom
  split
  next => exact .document (.nothing _)
  next =>
    simp only
    split
    next => exact .nothing ids
    next =>
      -- the document is named last, when no note or measure is left to name
      have hnamed := (nameMeasures_handsOut ids (drafts (readings text.toList))).append
        (.document (.nothing _))
      rw [List.append_nil, List.append_nil, ← List.map_flatMap] at hnamed
      simp only [ParseOutput.noteIds, ParseOutput.measureIds, Option.elim_some, Document.noteIds,
        Document.measureIds, Document.notes]
      exact hnamed

theorem nameNotes_documents (ids : IdSupply) (notes : List (NoteKind × Duration)) :
    (nameNotes ids notes).2.documents = ids.documents := by
  induction notes generalizing ids with
  | nil => rfl
  | cons note rest ih => exact ih ids.nextNote.2

theorem nameMeasures_documents (ids : IdSupply) (ds : List Draft) :
    (nameMeasures ids ds).2.documents = ids.documents := by
  induction ds generalizing ids with
  | nil => rfl
  | cons draft rest ih =>
    exact (ih (nameNotes ids draft.notes).2.nextMeasure.2).trans (nameNotes_documents _ _)

section

variable (ids : IdSupply) (options : ParseOptions) (text : String)

/-- A document is named if there is one, and without one the supply is left as it was. -/
theorem parseFrom_document_cases :
    (∃ doc, (parseFrom ids options text).1.document = some doc ∧
      doc.id.number = ids.documents + 1 ∧
      (parseFrom ids options text).2.documents = ids.documents + 1) ∨
    (parseFrom ids options text).1.document = none ∧ (parseFrom ids options text).2 = ids := by
  unfold parseFrom
  split
  next => exact Or.inl ⟨_, rfl, rfl, rfl⟩
  next =>
    simp only
    split
    next => exact Or.inr ⟨rfl, rfl⟩
    next =>
      have hkept := congrArg (· + 1) (nameMeasures_documents ids (drafts (readings text.toList)))
      exact Or.inl ⟨_, rfl, hkept, hkept⟩

/-- Two supplies give outputs that differ in names only. -/
theorem unnamed_parseFrom (other : IdSupply) :
    (parseFrom other options text).1.unnamed = (parseFrom ids options text).1.unnamed := by
  obtain ⟨hcontent, hdiagnostics, hwarnings, hlines⟩ :=
    parseFrom_matches other options text ids options
  have hdocument : (parseFrom other options text).1.document.map Document.unnamed =
      (parseFrom ids options text).1.document.map Document.unnamed := by
    cases hdoc : (parseFrom ids options text).1.document with
    | none =>
      rw [hdoc, Option.map_none, Option.map_eq_none_iff] at hcontent
      rw [hcontent]
    | some doc =>
      rw [hdoc, Option.map_some] at hcontent
      obtain ⟨copy, hcopy, hsame⟩ := Option.map_eq_some_iff.mp hcontent
      obtain ⟨htitle, htempo⟩ := parseFrom_title_tempo ids options text hdoc
      obtain ⟨htitle', htempo'⟩ := parseFrom_title_tempo other options text hcopy
      rw [hcopy, Option.map_some, Option.map_some, copy.unnamed_eq, doc.unnamed_eq, hsame, htitle,
        htitle', htempo, htempo']
  unfold ParseOutput.unnamed
  rw [hdocument, hdiagnostics, hwarnings, hlines]

end

/-- A parse numbers everything in its document one after the other behind the counters of the
supply, and leaves the counters at the last numbers it gave; without a document it leaves them
alone.  From any other supply the same text reads as the same output, under other names. -/
theorem parseFrom_numbers_in_order (ids : IdSupply) (options : ParseOptions) (text : String) :
    let parsed := parseFrom ids options text
    (match parsed.1.document with
      | some doc => doc.NumberedBehind ids ∧
          parsed.2 = ⟨ids.notes + doc.noteCount, ids.measures + doc.measures.length,
            ids.documents + 1⟩
      | none => parsed.2 = ids) ∧
      ∀ other : IdSupply, (parseFrom other options text).1.unnamed = parsed.1.unnamed := by
  intro parsed
  refine ⟨?_, unnamed_parseFrom ids options text⟩
  have hdrawn : ids.HandsOut parsed.1.noteIds parsed.1.measureIds parsed.2 :=
    parseFrom_handsOut ids options text
  rcases parseFrom_document_cases ids options text with ⟨doc, hdoc, hid, hlater⟩ | ⟨hdoc, hlater⟩
  · have hdoc : parsed.1.document = some doc := hdoc
    unfold ParseOutput.noteIds ParseOutput.measureIds at hdrawn
    rw [hdoc, Option.elim_some, Option.elim_some] at hdrawn
    obtain ⟨hnotes, hmeasures⟩ := hdrawn.counters
    rw [Document.noteIds, List.length_map] at hnotes
    rw [Document.measureIds, List.length_map] at hmeasures
    rw [hdoc]
    refine ⟨⟨hdrawn.notes_consecutive, hdrawn.measures_consecutive, hid⟩, ?_⟩
    rw [doc.noteCount_eq_length_notes, ← hnotes, ← hmeasures, ← hlater]
  · rw [show parsed.1.document = none from hdoc]
    exact hlater

end Notation

end TextScore

import TextScore.Duration
import TextScore.Error
import TextScore.Identifier
import TextScore.Pitch.Basic
import TextScore.Scalar
import TextScore.TimeSignature

/-!
# Document — measures of notes and rests

A document is always derived: read from a text, or made by an edit from another document.  Its
measures should hold what their signature asks for, but need not; the reader of texts remarks on it
and an edit never looks.  The tempo is not part of what is written: the canonical text of a document
is its measures and notes alone.
-/

namespace TextScore

/-! ## 1. Tempo -/

/-- Quarter notes per minute: a finite number above zero, and nothing else can be built. -/
structure Tempo where
  bpm : Float
  positive : Scalar.isPositive bpm = true
  deriving DecidableEq

namespace Tempo

def standard : Tempo := ⟨120.0, by decide⟩

def ofBpm (bpm : Float) : Except ScoreError Tempo :=
  if h : Scalar.isPositive bpm = true then .ok ⟨bpm, h⟩ else .error (.invalidTempo bpm)

end Tempo

/-- How long one quarter note lasts at a tempo. -/
def secondsPerBeat {α : Type} [Scalar α] (bpm : α) : α :=
  Scalar.ofNat 60 / bpm

/-! ## 2. Measures of notes -/

inductive NoteKind where
  | pitched (pitch : Pitch)
  | rest
  deriving DecidableEq, Repr

namespace NoteKind

def pitch? : NoteKind → Option Pitch
  | pitched p => some p
  | rest => none

/-- The written form: the pitch, or `R`. -/
def token : NoteKind → List Char
  | pitched p => p.token
  | rest => ['R']

end NoteKind

structure Note where
  id : NoteId
  kind : NoteKind
  duration : Duration
  deriving DecidableEq, Repr

structure Measure where
  id : MeasureId
  signature : TimeSignature
  notes : List Note
  deriving DecidableEq, Repr

structure Document where
  id : DocumentId
  title : String
  tempo : Tempo
  measures : List Measure
  deriving DecidableEq

def untitled : String := "Untitled"

/-- The length of a sequence of notes in quarter notes. -/
def totalBeats {α : Type} [Scalar α] (notes : List Note) : α :=
  Scalar.sum (notes.map fun note => note.duration.beats)

namespace Measure

/-- What the measure says, whatever it and its notes are called. -/
def content (m : Measure) : TimeSignature × List (NoteKind × Duration) :=
  (m.signature, m.notes.map fun note => (note.kind, note.duration))

end Measure

namespace Document

def isEmpty (doc : Document) : Bool :=
  doc.measures.isEmpty

def notes (doc : Document) : List Note :=
  doc.measures.flatMap (·.notes)

def noteCount (doc : Document) : Nat :=
  doc.measures.foldl (fun count m => count + m.notes.length) 0

theorem noteCount_eq_length_notes (doc : Document) : doc.noteCount = doc.notes.length := by
  have hfrom : ∀ (measures : List Measure) (count : Nat),
      measures.foldl (fun count m => count + m.notes.length) count =
        count + (measures.flatMap (·.notes)).length := by
    intro measures
    induction measures with
    | nil => exact fun _ => rfl
    | cons m rest ih =>
      intro count
      rw [List.foldl_cons, ih, List.flatMap_cons, List.length_append, Nat.add_assoc]
  exact (hfrom doc.measures 0).trans (Nat.zero_add _)

/-- Everything a document says but its names, title and tempo. -/
def content (doc : Document) : List (TimeSignature × List (NoteKind × Duration)) :=
  doc.measures.map Measure.content

/-- Two documents with the same measures and notes, whatever these are called. -/
def sameContent (a b : Document) : Bool :=
  a.content = b.content

end Document

/-! ## 3. The canonical text

One line a measure, the signature before a bar unless it is 4/4, and pairs of a symbol and a
duration with single blanks between them. -/

namespace Notation

def pairChars (note : Note) : List Char :=
  note.kind.token ++ [' ', note.duration.code]

def notesChars (notes : List Note) : List Char :=
  [' '].intercalate (notes.map pairChars)

def measureChars (m : Measure) : List Char :=
  if m.signature = .common then notesChars m.notes
  else m.signature.chars ++ ' ' :: '|' :: ' ' :: notesChars m.notes

def documentChars (doc : Document) : List Char :=
  ['\n'].intercalate (doc.measures.map measureChars)

def printMeasure (m : Measure) : String :=
  String.ofList (measureChars m)

/-- The text that reads back as the document. -/
def print (doc : Document) : String :=
  String.ofList (documentChars doc)

end Notation

end TextScore

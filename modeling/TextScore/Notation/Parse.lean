import TextScore.Error
import TextScore.Notation.Line
import TextScore.Text

/-!
# Parse — from text to document

Every line that is not blank is read on its own; a line with at least one note becomes a measure.
Only then are the measures counted and numbered: fullness is judged under the measure's number in
the document, by adding its notes up in quarter notes, where a difference below a millionth of a
beat is rounding and not a misfit.  Notes, measures and the document draw their identifiers from the
supply, each kind in the order of the text.

A blank text is an empty document.  A text that is not blank yields a document as soon as one
measure is built, and else no document and at least one diagnostic.
-/

namespace TextScore

/-- What a text does not say about itself. -/
structure ParseOptions where
  title : Option String
  tempo : Option Tempo
  deriving DecidableEq

def ParseOptions.none : ParseOptions := ⟨.none, .none⟩

structure ParseOutput where
  document : Option Document
  /-- Input that was dropped or replaced, line by line. -/
  diagnostics : List Diagnostic
  /-- Measures that do not fit their signature, line by line. -/
  warnings : List Diagnostic
  /-- The line of each measure of the document. -/
  measureLines : List Nat
  deriving DecidableEq

namespace Notation

open TextScore.Text

/-! ## 1. Fullness -/

/-- Sums closer than this count as equal. -/
def capacityTolerance : Float := 1e-6

/-- A number of beats to the nearest millionth. -/
def toMillionths (beats : Float) : Float :=
  Decimal.roundHalfAway (beats * 1e6) / 1e6

/-- The misfit of the measure with this number in its document, if it has one. -/
def misfit? (measure : Nat) (signature : TimeSignature) (notes : List (NoteKind × Duration)) :
    Option Fault :=
  let total : Float := Scalar.sum (notes.map fun note => note.2.beats)
  let capacity : Float := signature.capacity
  if (total - capacity).abs ≤ capacityTolerance then none
  else
    let way := if capacity < total then Misfit.over else Misfit.under
    some (.misfit way measure (toMillionths (signature.ownBeats total)) signature)

/-! ## 2. From lines to measures -/

structure Draft where
  line : Nat
  signature : TimeSignature
  notes : List (NoteKind × Duration)
  deriving DecidableEq, Repr

structure NumberedReading where
  line : Nat
  reading : LineReading
  deriving DecidableEq, Repr

namespace NumberedReading

/-- The measure of a line, if it has a note. -/
def draft? (r : NumberedReading) : Option Draft :=
  if r.reading.notes.isEmpty then none else some ⟨r.line, r.reading.signature, r.reading.notes⟩

def diagnostics (r : NumberedReading) : List Diagnostic :=
  r.reading.faults.map fun located => located.fault.atPlace r.line (some located.column)

end NumberedReading

/-- The lines of a text that are not blank, each read on its own. -/
def readings (text : List Char) : List NumberedReading :=
  (contentLines text).map fun line => ⟨line.number, readLine line.chars⟩

def drafts (rs : List NumberedReading) : List Draft :=
  rs.filterMap NumberedReading.draft?

/-- The warning on a measure with its number in the document. -/
def warning? (number : Nat) (draft : Draft) : Option Diagnostic :=
  (misfit? number draft.signature draft.notes).map fun fault => fault.atPlace draft.line none

/-- The warnings on measures that are numbered from `first` on. -/
def warningsFrom (first : Nat) : List Draft → List Diagnostic
  | [] => []
  | draft :: rest => (warning? first draft).toList ++ warningsFrom (first + 1) rest

/-- The one diagnostic of a text that has no note and no fault. -/
def noNotesDiagnostic (rs : List NumberedReading) : Diagnostic :=
  Fault.noValidNotes.atPlace ((rs.head?.map (·.line)).getD 1) none

section

variable {σ : Type} [IdSource σ]

def nameNotes (ids : σ) : List (NoteKind × Duration) → List Note × σ
  | [] => ([], ids)
  | (kind, duration) :: rest =>
    let (id, ids) := IdSource.nextNote ids
    let (notes, ids) := nameNotes ids rest
    (⟨id, kind, duration⟩ :: notes, ids)

/-- Each measure draws identifiers for its notes, then one for itself. -/
def nameMeasures (ids : σ) : List Draft → List Measure × σ
  | [] => ([], ids)
  | draft :: rest =>
    let (notes, ids) := nameNotes ids draft.notes
    let (id, ids) := IdSource.nextMeasure ids
    let (measures, ids) := nameMeasures ids rest
    (⟨id, draft.signature, notes⟩ :: measures, ids)

/-- The document of a text, drawing identifiers from a source; the source is returned. -/
def parseFrom (ids : σ) (options : ParseOptions) (text : String) : ParseOutput × σ :=
  let title := options.title.getD untitled
  let tempo := options.tempo.getD .standard
  if allBlank text.toList then
    let (id, ids) := IdSource.nextDocument ids
    (⟨some ⟨id, title, tempo, []⟩, [], [], []⟩, ids)
  else
    let rs := readings text.toList
    let diagnostics := rs.flatMap (·.diagnostics)
    let built := drafts rs
    if built.isEmpty then
      (⟨none, if diagnostics.isEmpty then [noNotesDiagnostic rs] else diagnostics, [], []⟩, ids)
    else
      let (measures, ids) := nameMeasures ids built
      let (id, ids) := IdSource.nextDocument ids
      (⟨some ⟨id, title, tempo, measures⟩, diagnostics, warningsFrom 1 built,
        built.map (·.line)⟩, ids)

end

/-- The same text always yields the same document: each parse starts a supply of its own. -/
def parse (options : ParseOptions) (text : String) : ParseOutput :=
  (parseFrom .fresh options text).1

/-! ## 3. The journal of a parse -/

def diagnosticRemark (d : Diagnostic) : Remark :=
  ⟨.trace, s!"diagnostic at line {d.line}: {d.message}"⟩

def warningRemark (d : Diagnostic) : Remark :=
  ⟨.trace, s!"warning at line {d.line}: {d.message}"⟩

def lineJournal (number : Nat) (r : NumberedReading) : Journal :=
  let remark (located : LocatedFault) :=
    diagnosticRemark (located.fault.atPlace r.line (some located.column))
  r.reading.signatureFault.toList.map remark
    ++ ⟨.trace, s!"line {r.line}: {r.reading.tokenCount} tokens in {r.reading.signature.name}"⟩
      :: r.reading.bodyFaults.map remark
    ++ ((r.draft?.bind (warning? number)).toList.map warningRemark)

/-- Remarks on lines whose next measure has the number `next`. -/
def linesJournal (next : Nat) : List NumberedReading → Journal
  | [] => []
  | r :: rest =>
    lineJournal next r ++ linesJournal (if r.draft?.isSome then next + 1 else next) rest

/-- What the parser remarks on a text; a blank text passes in silence. -/
def parseJournal (text : String) : Journal :=
  if allBlank text.toList then []
  else
    let rs := readings text.toList
    let built := drafts rs
    let faults := (rs.flatMap (·.diagnostics)).length
    let warnings := (warningsFrom 1 built).length
    linesJournal 1 rs ++
      [⟨.debug, s!"parsed {built.length} measures with {faults} diagnostics and {warnings} warnings"⟩]

end Notation

namespace ParseOutput

def hasErrors (output : ParseOutput) : Bool :=
  !output.diagnostics.isEmpty

/-- Diagnostics and warnings by line; within a line the diagnostics come first. -/
def allMessages (output : ParseOutput) : List Diagnostic :=
  (output.diagnostics ++ output.warnings).mergeSort fun a b => a.line ≤ b.line

def firstError? (output : ParseOutput) : Option ScoreError :=
  output.diagnostics.head?.map fun d => .parse d.line d.column d.message

/-- The strict view: the document, or the first diagnostic. -/
def strict (output : ParseOutput) : Except ScoreError Document :=
  match output.firstError?, output.document with
  | some error, _ => .error error
  | none, some doc => .ok doc
  | none, none => .error (.parse 1 none noValidNotesMessage)

end ParseOutput

end TextScore

import TextScore.Compile
import TextScore.Document
import TextScore.Edit

/-!
# Session — a text being edited

A session holds a text and what it reads as.  The text stays the truth: an edit is made on the
document and written back as canonical text, and the edited document is kept, so that the names of
its notes survive.  One supply of identifiers serves the whole session, so that no name is ever
given twice.
-/

namespace TextScore

structure Session where
  text : String
  title : String
  tempo : Tempo
  ids : IdSupply
  output : ParseOutput
  layout : StaffStyle Float
  dirty : Bool

/-- A change of a document that may draw identifiers. -/
abbrev Edit := Document → IdSupply → Document × IdSupply

namespace Session

open Notation

def start (layout : StaffStyle Float) (options : ParseOptions) (text : String) : Session :=
  let title := options.title.getD untitled
  let tempo := options.tempo.getD .standard
  let (output, ids) := parseFrom .fresh ⟨some title, some tempo⟩ text
  ⟨text, title, tempo, ids, output, layout, false⟩

def document? (s : Session) : Option Document :=
  s.output.document

/-- The options every reading of the session's text is made with. -/
def parseOptions (s : Session) : ParseOptions :=
  ⟨some s.title, some s.tempo⟩

def markClean (s : Session) : Session :=
  { s with dirty := false }

/-- Another text, read anew; the same text changes nothing. -/
def setText (s : Session) (text : String) : Session :=
  if text = s.text then s
  else
    let (output, ids) := parseFrom s.ids s.parseOptions text
    { s with text := text, ids := ids, output := output, dirty := true }

def setTitle (s : Session) (title : String) : Session :=
  let document := s.output.document.map fun doc => { doc with title := title }
  { s with title := title, output := { s.output with document := document }, dirty := true }

/-- What came of a new tempo, and the session behind it: a tempo that cannot be played is refused
before anything is written. -/
def setTempo (s : Session) (bpm : Float) : Except ScoreError Unit × Session :=
  match Tempo.ofBpm bpm with
  | .error error => (.error error, s)
  | .ok tempo =>
    let document := s.output.document.map fun doc => { doc with tempo := tempo }
    let output := { s.output with document := document }
    (.ok (), { s with tempo := tempo, output := output, dirty := true })

/-- The warnings on a text, read with identifiers that are thrown away. -/
def warningsOn (s : Session) (ids : IdSupply) (text : String) : List Diagnostic :=
  (parseFrom (.startingAfter ids.highest) s.parseOptions text).1.warnings

/-- An edit that changes the document is written back to the text.  What could not be read of the
old text is gone from the new one, so no diagnostic is left; only warnings can remain. -/
def apply (s : Session) (edit : Edit) : Session :=
  match s.output.document with
  | none => s
  | some doc =>
    let (edited, ids) := edit doc s.ids
    if edited = doc then { s with ids := ids }
    else
      let text := print edited
      { s with
        text := text
        ids := ids
        output :=
          { document := some edited
            diagnostics := []
            warnings := warningsOn s ids text
            measureLines := List.range' 1 edited.measures.length }
        dirty := true }

/-- What an edit remarks: how much unreadable input it drops, and the new text. -/
def applyJournal (s : Session) (edit : Edit) : Journal :=
  match s.output.document with
  | none => []
  | some doc =>
    let edited := (edit doc s.ids).1
    if edited = doc then []
    else
      let text := print edited
      let dropped := s.output.diagnostics.length
      (if s.output.hasErrors then
        [⟨.warn, s!"edit drops {dropped} invalid entries from the text"⟩]
      else [])
        ++ ⟨.debug, s!"edit applied, text is now {text.utf8ByteSize} bytes"⟩ :: parseJournal text

/-! ## Edits by name -/

def deleteEdit (id : NoteId) : Edit := fun doc ids => (doc.delete id, ids)

def nudgeEdit (id : NoteId) (steps : Int32) : Edit := fun doc ids => (doc.nudge id steps, ids)

def durationEdit (id : NoteId) (duration : Duration) : Edit :=
  fun doc ids => (doc.setDuration id duration, ids)

def transposeEdit (steps : Int32) : Edit := fun doc ids => (doc.transpose steps, ids)

def appendEdit (kind : NoteKind) (duration : Duration) : Edit := fun doc ids =>
  let (id, ids) := ids.nextNote
  (doc.append ⟨id, kind, duration⟩, ids)

def canAppend (s : Session) : Bool :=
  s.output.document.any fun doc => !doc.isEmpty

/-- The name of the new note comes with the session; without a measure there is none. -/
def appendNote (s : Session) (kind : NoteKind) (duration : Duration) : Option NoteId × Session :=
  if s.canAppend then (some s.ids.nextNote.1, s.apply (appendEdit kind duration)) else (none, s)

def appendJournal (s : Session) (kind : NoteKind) (duration : Duration) : Journal :=
  if s.canAppend then s.applyJournal (appendEdit kind duration) else []

def deleteNote (s : Session) (id : NoteId) : Session :=
  s.apply (deleteEdit id)

def nudgePitch (s : Session) (id : NoteId) (steps : Int32) : Session :=
  s.apply (nudgeEdit id steps)

def setDuration (s : Session) (id : NoteId) (duration : Duration) : Session :=
  s.apply (durationEdit id duration)

/-! ## Derived views -/

/-- A session without measures has nothing to play. -/
def schedule (s : Session) : Except ScoreError (List (Event Float)) :=
  match s.output.document with
  | some doc => if doc.isEmpty then .error .emptyDocument else TextScore.schedule doc s.tempo.bpm
  | none => .error .emptyDocument

def scheduleJournal (s : Session) : Journal :=
  match s.output.document with
  | some doc => if doc.isEmpty then [] else TextScore.scheduleJournal doc s.tempo.bpm
  | none => []

def measures (s : Session) : List Measure :=
  (s.output.document.map (·.measures)).getD []

/-- A text without a document is drawn as an empty one. -/
def geometry (s : Session) (container : Float) : StaffGeometry Float :=
  Staff.geometry s.layout container s.measures

def geometryJournal (s : Session) (container : Float) : Journal :=
  Staff.geometryJournal s.layout container s.measures

end Session

end TextScore

import TextScore.Compile
import TextScore.Json.Basic

/-!
# Exchange — the JSON forms of documents, schedules and geometry

Pitches, lengths and identifiers are written as their names, so that whoever reads the JSON need not
know how they are built.
-/

namespace TextScore

open Json

def NoteKind.toJson : NoteKind → Json
  | .pitched p => record [("type", text "pitched"), ("pitch", text p.name)]
  | .rest => record [("type", text "rest")]

def Duration.toJson (d : Duration) : Json :=
  text (String.ofList [d.code])

def Note.toJson (note : Note) : Json :=
  record [("id", text note.id.name), ("kind", note.kind.toJson), ("duration", note.duration.toJson)]

def TimeSignature.toJson (ts : TimeSignature) : Json :=
  record [("beats", ofNat ts.beats.toNat), ("beatType", ofNat ts.beatType.toNat)]

def Measure.toJson (m : Measure) : Json :=
  record [("id", text m.id.name), ("timeSignature", m.signature.toJson),
    ("notes", ofList Note.toJson m.notes)]

def Document.toJson (doc : Document) : Json :=
  record [("id", text doc.id.name), ("title", text doc.title), ("tempo", ofFloat doc.tempo.bpm),
    ("measures", ofList Measure.toJson doc.measures)]

def Diagnostic.toJson (d : Diagnostic) : Json :=
  record [("line", ofNat d.line), ("column", ofOption ofNat d.column), ("kind", text d.kind.name),
    ("message", text d.message)]

def ParseOutput.toJson (output : ParseOutput) : Json :=
  record [("document", ofOption Document.toJson output.document),
    ("diagnostics", ofList Diagnostic.toJson output.diagnostics),
    ("warnings", ofList Diagnostic.toJson output.warnings),
    ("measureLines", ofList ofNat output.measureLines)]

def Event.toJson (e : Event Float) : Json :=
  record [("timeSeconds", ofFloat e.timeSeconds), ("durationSeconds", ofFloat e.durationSeconds),
    ("pitch", ofOption (fun p => text p.name) e.pitch), ("noteId", text e.noteId.name),
    ("isRest", .bool e.isRest)]

def StaffGeometry.toJson (g : StaffGeometry Float) : Json :=
  record [("width", ofFloat g.width), ("height", ofFloat g.height),
    ("leftMargin", ofFloat g.leftMargin), ("topOffset", ofFloat g.topOffset),
    ("measureWidths", ofList ofFloat g.measureWidths)]

def PlacedNote.toJson (note : PlacedNote) : Json :=
  record [("noteId", text note.noteId.name), ("measureIndex", ofNat note.measureIndex),
    ("indexInMeasure", ofNat note.indexInMeasure), ("kind", note.kind.toJson),
    ("duration", note.duration.toJson)]

def Compiled.toJson (c : Compiled) : Json :=
  record [("document", c.document.toJson), ("diagnostics", ofList Diagnostic.toJson c.diagnostics),
    ("warnings", ofList Diagnostic.toJson c.warnings), ("schedule", ofList Event.toJson c.schedule),
    ("layout", c.layout.toJson), ("notes", ofList PlacedNote.toJson c.notes)]

end TextScore

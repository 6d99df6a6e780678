import TextScore.Document
import TextScore.Pitch.Nudge

/-!
# Edit — documents made from documents

An edit names a note and returns a new document.  A name that no note bears changes nothing: a
screen that lags behind deletes a note twice.  No edit looks at whether a measure is full.
-/

namespace TextScore

namespace Note

def nudge (note : Note) (steps : Int32) : Note :=
  match note.kind with
  | .pitched p => { note with kind := .pitched (p.nudge steps) }
  | .rest => note

end Note

namespace Document

def mapNotes (doc : Document) (f : Note → Note) : Document :=
  { doc with measures := doc.measures.map fun m => { m with notes := m.notes.map f } }

def find? (doc : Document) (id : NoteId) : Option Note :=
  doc.notes.find? fun note => note.id = id

/-- Without the note; measures that hold no note are left out. -/
def delete (doc : Document) (id : NoteId) : Document :=
  let kept := doc.measures.map fun m => { m with notes := m.notes.filter fun note => note.id ≠ id }
  { doc with measures := kept.filter fun m => !m.notes.isEmpty }

/-- A note at the end of the last measure; a document without measures stays as it is. -/
def append (doc : Document) (note : Note) : Document :=
  match doc.measures.getLast? with
  | none => doc
  | some last =>
    { doc with measures := doc.measures.dropLast ++ [{ last with notes := last.notes ++ [note] }] }

/-- One note moved by some steps of the scale. -/
def nudge (doc : Document) (id : NoteId) (steps : Int32) : Document :=
  if steps = 0 then doc
  else doc.mapNotes fun note => if note.id = id then note.nudge steps else note

/-- One note given another length; its neighbours are left alone. -/
def setDuration (doc : Document) (id : NoteId) (duration : Duration) : Document :=
  doc.mapNotes fun note => if note.id = id then { note with duration := duration } else note

def transpose (doc : Document) (steps : Int32) : Document :=
  if steps = 0 then doc else doc.mapNotes fun note => note.nudge steps

end Document

end TextScore

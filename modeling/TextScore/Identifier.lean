/-!
# Identifier — names that are never given twice

Notes, measures and documents are numbered apart, each kind from 1.  A supply remembers the last
number of each kind; whoever creates something draws the next one from it.
-/

namespace TextScore

structure NoteId where
  number : Nat
  deriving DecidableEq, Repr

structure MeasureId where
  number : Nat
  deriving DecidableEq, Repr

structure DocumentId where
  number : Nat
  deriving DecidableEq, Repr

def NoteId.name (id : NoteId) : String := s!"note-{id.number}"

def MeasureId.name (id : MeasureId) : String := s!"measure-{id.number}"

def DocumentId.name (id : DocumentId) : String := s!"doc-{id.number}"

/-- The last number handed out of each kind. -/
structure IdSupply where
  notes : Nat
  measures : Nat
  documents : Nat
  deriving DecidableEq, Repr

namespace IdSupply

/-- Every kind goes on behind the same number. -/
def startingAfter (last : Nat) : IdSupply := ⟨last, last, last⟩

def fresh : IdSupply := startingAfter 0

def nextNote (ids : IdSupply) : NoteId × IdSupply :=
  (⟨ids.notes + 1⟩, { ids with notes := ids.notes + 1 })

def nextMeasure (ids : IdSupply) : MeasureId × IdSupply :=
  (⟨ids.measures + 1⟩, { ids with measures := ids.measures + 1 })

def nextDocument (ids : IdSupply) : DocumentId × IdSupply :=
  (⟨ids.documents + 1⟩, { ids with documents := ids.documents + 1 })

def highest (ids : IdSupply) : Nat :=
  max (max ids.notes ids.measures) ids.documents

end IdSupply

/-- Whatever names notes, measures and documents; a draw returns the source to go on with. -/
class IdSource (σ : Type) where
  nextNote : σ → NoteId × σ
  nextMeasure : σ → MeasureId × σ
  nextDocument : σ → DocumentId × σ

@[default_instance]
instance : IdSource IdSupply where
  nextNote := IdSupply.nextNote
  nextMeasure := IdSupply.nextMeasure
  nextDocument := IdSupply.nextDocument

end TextScore

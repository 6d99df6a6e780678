import TextScore.Document
import TextScore.Error

/-!
# Staff — the geometry of a drawn document

A measure is as wide as it is complex: its beats, and something for each note, but never less than a
measure of one beat.  When the measures are narrower than the room for them, all grow by the same
factor; when they are wider, nothing shrinks and the staff is longer than the room.
-/

namespace TextScore

structure StaffStyle (α : Type) where
  height : α
  marginX : α
  marginTop : α
  minMeasureWidth : α
  pixelsPerComplexityUnit : α
  /-- The room assumed when none is given. -/
  fallbackWidth : α
  /-- The complexity of a note beside its beats. -/
  densityWeight : α

def StaffStyle.standard : StaffStyle Float where
  height := 260.0
  marginX := 10.0
  marginTop := 40.0
  minMeasureWidth := 80.0
  pixelsPerComplexityUnit := 60.0
  fallbackWidth := 700.0
  densityWeight := 0.3

structure StaffGeometry (α : Type) where
  width : α
  height : α
  leftMargin : α
  topOffset : α
  /-- One entry a measure, and a single one for a document without measures. -/
  measureWidths : List α

structure PlacedNote where
  noteId : NoteId
  measureIndex : Nat
  indexInMeasure : Nat
  kind : NoteKind
  duration : Duration
  deriving DecidableEq, Repr

namespace Staff

variable {α : Type} [Scalar α]

def complexity (style : StaffStyle α) (m : Measure) : α :=
  Scalar.larger (totalBeats m.notes + style.densityWeight * Scalar.ofNat m.notes.length)
    (Scalar.ofNat 1)

def baseWidth (style : StaffStyle α) (complexity : α) : α :=
  Scalar.larger style.minMeasureWidth (complexity * style.pixelsPerComplexityUnit)

/-- An empty document is drawn as one empty measure. -/
def baseWidths (style : StaffStyle α) (measures : List Measure) : List α :=
  if measures.isEmpty then [baseWidth style (Scalar.ofNat 1)]
  else measures.map fun m => baseWidth style (complexity style m)

def roomWidth (style : StaffStyle α) (container : α) : α :=
  if Scalar.isPositive container then container else style.fallbackWidth

/-- How much the base widths are stretched to fill the room between the margins. -/
def stretch (style : StaffStyle α) (room : α) (bases : List α) : α :=
  Scalar.larger ((room - Scalar.ofNat 2 * style.marginX) / Scalar.sum bases) (Scalar.ofNat 1)

def geometry (style : StaffStyle α) (container : α) (measures : List Measure) : StaffGeometry α :=
  let bases := baseWidths style measures
  let scale := stretch style (roomWidth style container) bases
  let widths := bases.map (· * scale)
  { width := Scalar.sum widths + Scalar.ofNat 2 * style.marginX
    height := style.height
    leftMargin := style.marginX
    topOffset := style.marginTop
    measureWidths := widths }

def geometryJournal (style : StaffStyle Float) (container : Float) (measures : List Measure) :
    Journal :=
  let room := roomWidth style container
  let bases := baseWidths style measures
  let scale := stretch style room bases
  let content : Float := Scalar.sum (bases.map (· * scale))
  [⟨.debug, s!"layout: {measures.length} measures, container {Decimal.inMessage room}, " ++
    s!"scale {Decimal.fixed 3 scale}, content {Decimal.fixed 1 content}"⟩]

end Staff

namespace StaffGeometry

variable {α : Type} [Scalar α]

def measureX? (g : StaffGeometry α) (index : Nat) : Option α :=
  if index < g.measureWidths.length then
    some (g.leftMargin + Scalar.sum (g.measureWidths.take index))
  else none

end StaffGeometry

def placeNotes (measureIndex : Nat) (notes : List Note) : List PlacedNote :=
  notes.mapIdx fun i note => ⟨note.id, measureIndex, i, note.kind, note.duration⟩

/-- The notes of a document in the order they are played, with their places. -/
def Document.placedNotes (doc : Document) : List PlacedNote :=
  (doc.measures.mapIdx fun i m => placeNotes i m.notes).flatten

end TextScore

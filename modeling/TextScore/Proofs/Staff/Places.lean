import Mathlib
import TextScore.Staff

/-!
# Places — where the notes of a document stand

A place is a measure and an index in it.  The placed notes of a document are its notes, each with its
place: places come in increasing order, and every place that holds a note comes exactly once.  On the
staff every measure has a width and a left edge, so that every place can be drawn.
-/

namespace TextScore

/-- The note at this index of this measure, if there is one. -/
def Document.noteAt? (doc : Document) (measureIndex indexInMeasure : ℕ) : Option Note :=
  doc.measures[measureIndex]?.bind fun m => m.notes[indexInMeasure]?

namespace PlacedNote

/-- The note, without its place. -/
def note (p : PlacedNote) : Note :=
  ⟨p.noteId, p.kind, p.duration⟩

def place (p : PlacedNote) : ℕ × ℕ :=
  (p.measureIndex, p.indexInMeasure)

/-- In an earlier measure, or earlier in the same one. -/
def Precedes (p q : PlacedNote) : Prop :=
  p.measureIndex < q.measureIndex ∨
    p.measureIndex = q.measureIndex ∧ p.indexInMeasure < q.indexInMeasure

theorem Precedes.place_ne {p q : PlacedNote} (h : p.Precedes q) : p.place ≠ q.place := by
  intro hplace
  obtain ⟨hmeasure, hindex⟩ := Prod.mk.inj hplace
  rcases h with hlt | ⟨-, hlt⟩
  · exact hlt.ne hmeasure
  · exact hlt.ne hindex

end PlacedNote

/-- The note as an entry with this place. -/
def Note.placedAt (note : Note) (measureIndex indexInMeasure : ℕ) : PlacedNote :=
  ⟨note.id, measureIndex, indexInMeasure, note.kind, note.duration⟩

/-! ## 1. The notes of one measure -/

theorem getElem?_placeNotes (measureIndex : ℕ) (notes : List Note) (i : ℕ) :
    (placeNotes measureIndex notes)[i]? = notes[i]?.map (·.placedAt measureIndex i) :=
  List.getElem?_mapIdx

theorem map_note_placeNotes (measureIndex : ℕ) (notes : List Note) :
    (placeNotes measureIndex notes).map PlacedNote.note = notes := by
  apply List.ext_getElem?
  intro i
  rw [List.getElem?_map, getElem?_placeNotes, Option.map_map]
  exact Option.map_id'

theorem mem_placeNotes_iff {measureIndex : ℕ} {notes : List Note} {p : PlacedNote} :
    p ∈ placeNotes measureIndex notes ↔
      p.measureIndex = measureIndex ∧ notes[p.indexInMeasure]? = some p.note := by
  rw [List.mem_iff_getElem?]
  simp only [getElem?_placeNotes, Option.map_eq_some_iff]
  constructor
  · rintro ⟨i, note, hnote, rfl⟩
    exact ⟨rfl, hnote⟩
  · rintro ⟨rfl, hnote⟩
    exact ⟨p.indexInMeasure, p.note, hnote, rfl⟩

theorem placeNotes_increasing (measureIndex : ℕ) (notes : List Note) :
    (placeNotes measureIndex notes).Pairwise PlacedNote.Precedes := by
  rw [List.pairwise_iff_getElem]
  intro i j hi hj hij
  simp only [placeNotes, List.getElem_mapIdx]
  exact Or.inr ⟨rfl, hij⟩

/-! ## 2. The notes of a document -/

variable (doc : Document)

theorem map_note_placedNotes : doc.placedNotes.map PlacedNote.note = doc.notes := by
  have hmeasures : (doc.measures.mapIdx fun i m => placeNotes i m.notes).map
      (List.map PlacedNote.note) = doc.measures.map (·.notes) := by
    apply List.ext_getElem?
    intro i
    rw [List.getElem?_map, List.getElem?_mapIdx, Option.map_map, List.getElem?_map]
    congr 1
    funext m
    exact map_note_placeNotes i m.notes
  unfold Document.placedNotes Document.notes
  rw [List.map_flatten, hmeasures, List.flatMap_def]

theorem mem_placedNotes_iff {p : PlacedNote} :
    p ∈ doc.placedNotes ↔ doc.noteAt? p.measureIndex p.indexInMeasure = some p.note := by
  unfold Document.placedNotes Document.noteAt?
  rw [List.mem_flatten, Option.bind_eq_some_iff]
  constructor
  · rintro ⟨placed, hplaced, hp⟩
    obtain ⟨i, hi, rfl⟩ := List.mem_mapIdx.mp hplaced
    obtain ⟨rfl, hnote⟩ := mem_placeNotes_iff.mp hp
    exact ⟨_, List.getElem?_eq_getElem hi, hnote⟩
  · rintro ⟨m, hm, hnote⟩
    obtain ⟨hi, rfl⟩ := List.getElem?_eq_some_iff.mp hm
    exact ⟨_, List.mem_mapIdx.mpr ⟨p.measureIndex, hi, rfl⟩, mem_placeNotes_iff.mpr ⟨rfl, hnote⟩⟩

theorem placedNotes_increasing : doc.placedNotes.Pairwise PlacedNote.Precedes := by
  unfold Document.placedNotes
  rw [List.pairwise_flatten]
  constructor
  · intro placed hplaced
    obtain ⟨i, hi, rfl⟩ := List.mem_mapIdx.mp hplaced
    exact placeNotes_increasing i _
  · -- all places of a measure are in it, so those of a later measure come behind them
    rw [List.pairwise_iff_getElem]
    intro i j hi hj hij p hp q hq
    rw [List.getElem_mapIdx] at hp hq
    obtain ⟨hpi, -⟩ := mem_placeNotes_iff.mp hp
    obtain ⟨hqj, -⟩ := mem_placeNotes_iff.mp hq
    exact Or.inl (by omega)

theorem nodup_places : (doc.placedNotes.map PlacedNote.place).Nodup :=
  List.pairwise_map.mpr ((placedNotes_increasing doc).imp PlacedNote.Precedes.place_ne)

/-- A place that holds a note is the place of exactly one entry. -/
theorem existsUnique_place {i j : ℕ} {note : Note} (h : doc.noteAt? i j = some note) :
    ∃! k : ℕ, (doc.placedNotes.map PlacedNote.place)[k]? = some (i, j) := by
  have hmem : note.placedAt i j ∈ doc.placedNotes := (mem_placedNotes_iff doc).mpr h
  obtain ⟨k, hk⟩ := List.mem_iff_getElem?.mp (List.mem_map_of_mem (f := PlacedNote.place) hmem)
  refine ⟨k, hk, ?_⟩
  intro l hl
  obtain ⟨hlength, -⟩ := List.getElem?_eq_some_iff.mp hl
  exact (List.getElem?_inj hlength (nodup_places doc)).mp (hl.trans hk.symm)

/-! ## 3. The staff under the notes -/

section

variable {α : Type} [Scalar α] (style : StaffStyle α) (container : α) (measures : List Measure)

/-- One width a measure, and one for a document without measures. -/
theorem length_measureWidths :
    (Staff.geometry style container measures).measureWidths.length = max 1 measures.length := by
  unfold Staff.geometry Staff.baseWidths
  rw [List.length_map]
  cases measures with
  | nil => rfl
  | cons m rest =>
    rw [if_neg (by simp), List.length_map, List.length_cons]
    omega

theorem exists_measureX? {geometry : StaffGeometry α} {index : ℕ}
    (h : index < geometry.measureWidths.length) :
    ∃ width x, geometry.measureWidths[index]? = some width ∧ geometry.measureX? index = some x :=
  ⟨_, _, List.getElem?_eq_getElem h, if_pos h⟩

end

end TextScore

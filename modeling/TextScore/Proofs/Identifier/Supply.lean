import Mathlib
import TextScore.Identifier

/-!
# Supply — what a supply hands out

A supply hands out names one draw at a time, in any mixture of kinds.  The names of one kind are
numbered one after the other from the supply's counter on, so that later names are always larger and
no name is larger than the counter that is left.
-/

namespace TextScore

/-! ## 1. Names of one kind -/

/-- Names without repetition, none numbered beyond `last`. -/
structure Numbered {α : Type} (number : α → Nat) (names : List α) (last : Nat) : Prop where
  nodup : names.Nodup
  le : ∀ id ∈ names, number id ≤ last

/-- No name is used twice in `new`, and each is an old one or among those drawn. -/
structure NamedFrom {α : Type} (new old drawn : List α) : Prop where
  nodup : new.Nodup
  mem : ∀ id ∈ new, id ∈ old ∨ id ∈ drawn

/-- Names numbered one after the other behind `first`. -/
def Consecutive {α : Type} (number : α → Nat) (first : Nat) (names : List α) : Prop :=
  names.map number = List.range' (first + 1) names.length

section

variable {α : Type} {number : α → Nat} {names : List α} {first : Nat}

theorem Consecutive.cons {id : α} (hid : number id = first + 1)
    (h : Consecutive number (first + 1) names) : Consecutive number first (id :: names) := by
  show number id :: names.map number = _
  rw [hid, h]
  rfl

theorem Consecutive.increasing (h : Consecutive number first names) :
    names.Pairwise fun a b => number a < number b := by
  apply List.pairwise_map.mp
  rw [h]
  exact List.pairwise_lt_range'

theorem Consecutive.bounds (h : Consecutive number first names) {id : α} (hid : id ∈ names) :
    first < number id ∧ number id ≤ first + names.length := by
  have hmem : number id ∈ List.range' (first + 1) names.length := by
    rw [← h]
    exact List.mem_map_of_mem hid
  rw [List.mem_range'_1] at hmem
  omega

theorem Consecutive.nodup (h : Consecutive number first names) : names.Nodup :=
  h.increasing.imp fun hlt heq => absurd (congrArg number heq) hlt.ne

/-- What uses old names and names drawn behind them, each at most once, stays numbered. -/
theorem Numbered.of_namedFrom {new old drawn : List α} {last : Nat} (hold : Numbered number old last)
    (hdrawn : Consecutive number last drawn) (h : NamedFrom new old drawn) :
    Numbered number new (last + drawn.length) where
  nodup := h.nodup
  le id hid := by
    rcases h.mem id hid with hid | hid
    · exact Nat.le_add_right_of_le (hold.le id hid)
    · exact (hdrawn.bounds hid).2

/-- A name that is numbered but not used is not used again, for names are drawn behind it. -/
theorem NamedFrom.not_mem {new old drawn : List α} {last : Nat} (h : NamedFrom new old drawn)
    (hdrawn : Consecutive number last drawn) {id : α} (hid : id ∉ old) (hle : number id ≤ last) :
    id ∉ new := by
  intro hmem
  rcases h.mem id hmem with hold | hnew
  · exact hid hold
  · exact absurd (hdrawn.bounds hnew).1 hle.not_gt

/-- What is drawn later stands behind what the names in between come from. -/
theorem NamedFrom.mem_append {new old drawn later : List α} (h : NamedFrom new old drawn) {id : α}
    (hid : id ∈ new ++ later) : id ∈ old ++ (drawn ++ later) := by
  rw [← List.append_assoc]
  rcases List.mem_append.mp hid with hid | hid
  · exact List.mem_append_left _ (List.mem_append.mpr (h.mem id hid))
  · exact List.mem_append_right _ hid

theorem NamedFrom.of_sublist {new old : List α} (hold : old.Nodup) (h : new.Sublist old) :
    NamedFrom new old [] where
  nodup := hold.sublist h
  mem _ hid := Or.inl (h.subset hid)

end

/-! ## 2. Draws -/

namespace IdSupply

/-- The names of notes and of measures that draws hand out on the way from one supply to another. -/
inductive HandsOut : IdSupply → List NoteId → List MeasureId → IdSupply → Prop
  | nothing (ids : IdSupply) : HandsOut ids [] [] ids
  | note {ids later : IdSupply} {notes : List NoteId} {measures : List MeasureId} :
      HandsOut ids.nextNote.2 notes measures later →
        HandsOut ids (ids.nextNote.1 :: notes) measures later
  | measure {ids later : IdSupply} {notes : List NoteId} {measures : List MeasureId} :
      HandsOut ids.nextMeasure.2 notes measures later →
        HandsOut ids notes (ids.nextMeasure.1 :: measures) later
  | document {ids later : IdSupply} {notes : List NoteId} {measures : List MeasureId} :
      HandsOut ids.nextDocument.2 notes measures later → HandsOut ids notes measures later

namespace HandsOut

variable {ids between later : IdSupply} {notes notes' : List NoteId}
  {measures measures' : List MeasureId}

theorem append (h : ids.HandsOut notes measures between)
    (h' : between.HandsOut notes' measures' later) :
    ids.HandsOut (notes ++ notes') (measures ++ measures') later := by
  induction h with
  | nothing => exact h'
  | note _ ih => exact .note (ih h')
  | measure _ ih => exact .measure (ih h')
  | document _ ih => exact .document (ih h')

theorem notes_consecutive (h : ids.HandsOut notes measures later) :
    Consecutive NoteId.number ids.notes notes := by
  induction h with
  | nothing => rfl
  | note _ ih => exact .cons rfl ih
  | measure _ ih => exact ih
  | document _ ih => exact ih

theorem measures_consecutive (h : ids.HandsOut notes measures later) :
    Consecutive MeasureId.number ids.measures measures := by
  induction h with
  | nothing => rfl
  | note _ ih => exact ih
  | measure _ ih => exact .cons rfl ih
  | document _ ih => exact ih

/-- The counters stand at the last names that were handed out. -/
theorem counters (h : ids.HandsOut notes measures later) :
    later.notes = ids.notes + notes.length ∧
      later.measures = ids.measures + measures.length := by
  induction h with
  | nothing => exact ⟨rfl, rfl⟩
  | note _ ih =>
    simp only [nextNote] at ih
    rw [List.length_cons]
    omega
  | measure _ ih =>
    simp only [nextMeasure] at ih
    rw [List.length_cons]
    omega
  | document _ ih => exact ih

end HandsOut

end IdSupply

end TextScore

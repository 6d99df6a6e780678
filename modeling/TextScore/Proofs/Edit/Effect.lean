import Mathlib
import TextScore.Edit
import TextScore.Proofs.Edit.Names

/-!
# Effect — when an edit changes the document it is given

An edit by name gives back the same document exactly when there is nothing for it to do: no note
bears the name, or the note is already what it is to become.  For a deletion this needs that no
measure is empty, since it takes empty measures with it, and for the other edits that a name is
borne by one note at most.
-/

namespace TextScore.Document

variable (doc : Document)

/-! ## 1. Notes by name -/

theorem find?_eq_none_iff {id : NoteId} :
    doc.find? id = none ↔ ∀ note ∈ doc.notes, note.id ≠ id := by
  unfold find?
  rw [List.find?_eq_none]
  simp only [decide_eq_true_eq]

variable {doc}

theorem id_eq_of_find? {id : NoteId} {note : Note} (h : doc.find? id = some note) :
    note.id = id := by
  have hnamed := List.find?_some (p := fun note : Note => decide (note.id = id)) h
  exact of_decide_eq_true hnamed

/-- Where no name is borne twice, the note of a name is the one that is found. -/
theorem mem_find?_iff (hnames : doc.noteIds.Nodup) {id : NoteId} {note : Note} :
    note ∈ doc.find? id ↔ note ∈ doc.notes ∧ note.id = id := by
  constructor
  · intro h
    exact ⟨List.mem_of_find?_eq_some h, id_eq_of_find? h⟩
  · intro h
    obtain ⟨hmem, hid⟩ := h
    cases hfound : doc.find? id with
    | none => exact absurd hid (doc.find?_eq_none_iff.mp hfound note hmem)
    | some found =>
      have hsame : found.id = note.id := (id_eq_of_find? hfound).trans hid.symm
      have hfoundMem : found ∈ doc.notes := List.mem_of_find?_eq_some hfound
      rw [Option.mem_def, List.inj_on_of_nodup_map hnames hfoundMem hmem hsame]

/-! ## 2. Notes replaced one by one -/

theorem map_eq_self_iff {α : Type} {f : α → α} {l : List α} : l.map f = l ↔ ∀ a ∈ l, f a = a := by
  conv_lhs => rhs; rw [← List.map_id l]
  exact List.map_inj_left

theorem notes_mapNotes (f : Note → Note) : (doc.mapNotes f).notes = doc.notes.map f := by
  unfold notes mapNotes
  rw [List.flatMap_map, List.map_flatMap]

/-- Two changes of the notes come to the same document if they do the same to each of its notes. -/
theorem mapNotes_eq_iff {f g : Note → Note} :
    doc.mapNotes f = doc.mapNotes g ↔ ∀ note ∈ doc.notes, f note = g note := by
  constructor
  · intro h
    have hnotes : doc.notes.map f = doc.notes.map g := by
      rw [← notes_mapNotes, h, notes_mapNotes]
    exact List.map_inj_left.mp hnotes
  · intro h
    have hmeasure : ∀ m ∈ doc.measures,
        { m with notes := m.notes.map f } = { m with notes := m.notes.map g } := by
      intro m hm
      have hnotes : m.notes.map f = m.notes.map g :=
        List.map_congr_left fun note hnote => h note (List.mem_flatMap.mpr ⟨m, hm, hnote⟩)
      rw [hnotes]
    unfold mapNotes
    rw [List.map_congr_left hmeasure]

theorem mapNotes_eq_self_iff {f : Note → Note} :
    doc.mapNotes f = doc ↔ ∀ note ∈ doc.notes, f note = note := by
  have hsame : doc.mapNotes (fun note => note) = doc := by
    unfold mapNotes
    simp only [List.map_id']
  have hall : doc.mapNotes f = doc.mapNotes (fun note => note) ↔
      ∀ note ∈ doc.notes, f note = note := mapNotes_eq_iff
  rwa [hsame] at hall

/-- An edit of the note under a name does nothing when it keeps the note that is found. -/
theorem mapNotes_named_eq_self_iff (hnames : doc.noteIds.Nodup) {id : NoteId} {f : Note → Note} :
    (doc.mapNotes fun note => if note.id = id then f note else note) = doc ↔
      ∀ note ∈ doc.find? id, f note = note := by
  rw [mapNotes_eq_self_iff]
  constructor
  · intro h note hnote
    obtain ⟨hmem, hid⟩ := (mem_find?_iff hnames).mp hnote
    have hnote := h note hmem
    rwa [if_pos hid] at hnote
  · intro h note hmem
    by_cases hid : note.id = id
    · rw [if_pos hid]
      exact h note ((mem_find?_iff hnames).mpr ⟨hmem, hid⟩)
    · rw [if_neg hid]

/-! ## 3. The four edits -/

theorem setDuration_eq_self_iff (hnames : doc.noteIds.Nodup) {id : NoteId} {duration : Duration} :
    doc.setDuration id duration = doc ↔ ∀ note ∈ doc.find? id, note.duration = duration := by
  show (doc.mapNotes fun note => if note.id = id then _ else note) = doc ↔ _
  rw [mapNotes_named_eq_self_iff hnames]
  apply forall₂_congr
  intro note _
  constructor
  · intro h
    rw [← h]
  · intro h
    rw [← h]

/-- A rest stays as it is, and so does a pitch that the nudge brings back to itself. -/
theorem nudge_note_eq_self_iff {note : Note} {steps : Int32} :
    note.nudge steps = note ↔
      note.kind = .rest ∨ ∃ p, note.kind = .pitched p ∧ p.nudge steps = p := by
  unfold Note.nudge
  cases hkind : note.kind with
  | rest => exact iff_of_true rfl (Or.inl rfl)
  | pitched p =>
    constructor
    · intro h
      have hpitch : NoteKind.pitched (p.nudge steps) = .pitched p := by
        rw [← hkind, ← h]
      exact Or.inr ⟨p, rfl, NoteKind.pitched.inj hpitch⟩
    · intro h
      rcases h with h | ⟨q, hq, hsame⟩
      · cases h
      · cases hq
        show { note with kind := NoteKind.pitched (p.nudge steps) } = note
        rw [hsame, ← hkind]

theorem nudge_eq_self_iff (hnames : doc.noteIds.Nodup) {id : NoteId} {steps : Int32} :
    doc.nudge id steps = doc ↔
      steps = 0 ∨ ∀ note ∈ doc.find? id,
        note.kind = .rest ∨ ∃ p, note.kind = .pitched p ∧ p.nudge steps = p := by
  unfold nudge
  by_cases hsteps : steps = 0
  · rw [if_pos hsteps]
    exact iff_of_true rfl (Or.inl hsteps)
  · rw [if_neg hsteps, mapNotes_named_eq_self_iff hnames, or_iff_right hsteps]
    exact forall₂_congr fun note _ => nudge_note_eq_self_iff

/-- No measure is without a note. -/
def Filled (doc : Document) : Prop :=
  ∀ m ∈ doc.measures, m.notes ≠ []

theorem delete_eq_self_iff (hfilled : doc.Filled) {id : NoteId} :
    doc.delete id = doc ↔ doc.find? id = none := by
  rw [find?_eq_none_iff]
  constructor
  · intro h note hnote hid
    rw [← h, notes_delete] at hnote
    have hkept := (List.mem_filter.mp hnote).2
    rw [decide_eq_true_eq] at hkept
    exact hkept hid
  · intro h
    have hmeasure : ∀ m ∈ doc.measures,
        { m with notes := m.notes.filter fun note => note.id ≠ id } = m := by
      intro m hm
      have hnotes : (m.notes.filter fun note => note.id ≠ id) = m.notes := by
        rw [List.filter_eq_self]
        intro note hnote
        exact decide_eq_true (h note (List.mem_flatMap.mpr ⟨m, hm, hnote⟩))
      rw [hnotes]
    -- all measures are kept, since none of them is empty
    have hkept : (doc.measures.filter fun m => !m.notes.isEmpty) = doc.measures := by
      rw [List.filter_eq_self]
      intro m hm
      simpa using hfilled m hm
    show { doc with measures := (doc.measures.map fun m =>
      { m with notes := m.notes.filter fun note => note.id ≠ id }).filter _ } = doc
    rw [map_eq_self_iff.mpr hmeasure, hkept]

theorem append_ne_self (h : doc.measures ≠ []) (note : Note) : doc.append note ≠ doc := by
  intro heq
  -- there is one name more, whatever it is
  have hnames : (doc.append note).noteIds = doc.noteIds ++ [note.id] := doc.noteIds_append h
  rw [heq] at hnames
  have hlength := congrArg List.length hnames
  rw [List.length_append, List.length_singleton] at hlength
  omega

/-! ## 4. Documents without empty measures -/

theorem Filled.mapNotes (h : doc.Filled) (f : Note → Note) : (doc.mapNotes f).Filled := by
  unfold Filled Document.mapNotes
  rw [List.forall_mem_map]
  intro m hm
  simpa using h m hm

theorem Filled.nudge (h : doc.Filled) (id : NoteId) (steps : Int32) :
    (doc.nudge id steps).Filled := by
  unfold Document.nudge
  split
  · exact h
  · exact h.mapNotes _

theorem Filled.transpose (h : doc.Filled) (steps : Int32) : (doc.transpose steps).Filled := by
  unfold Document.transpose
  split
  · exact h
  · exact h.mapNotes _

/-- A measure that loses its last note is left out. -/
theorem filled_delete (id : NoteId) : (doc.delete id).Filled := by
  intro m hm
  have hkept := (List.mem_filter.mp hm).2
  simpa using hkept

theorem Filled.append (h : doc.Filled) (note : Note) : (doc.append note).Filled := by
  unfold Document.append
  cases hlast : doc.measures.getLast? with
  | none => exact h
  | some last =>
    show ∀ m ∈ doc.measures.dropLast ++ [_], m.notes ≠ []
    rw [List.forall_mem_append, List.forall_mem_singleton]
    constructor
    · exact fun m hm => h m (List.mem_of_mem_dropLast hm)
    · exact List.append_ne_nil_of_right_ne_nil _ (List.cons_ne_nil _ _)

end TextScore.Document

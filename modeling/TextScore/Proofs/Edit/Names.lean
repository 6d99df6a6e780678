import Mathlib
import TextScore.Session
import TextScore.Proofs.Identifier.Naming

/-!
# Names — what edits do to the names of notes and measures

A nudge, a transposition and another length keep all names, a deletion keeps all but one, and
appending adds one that was drawn for it.  What these edits have in common is all that a session
relies on: no name is used twice, and none is used that is neither the document's nor newly drawn.
-/

namespace TextScore

/-! ## 1. Documents -/

theorem Note.id_nudge (note : Note) (steps : Int32) : (note.nudge steps).id = note.id := by
  unfold Note.nudge
  split <;> rfl

namespace Document

variable (doc : Document)

/-- Notes and measures are called the same. -/
structure SameNames (a b : Document) : Prop where
  notes : a.noteIds = b.noteIds
  measures : a.measureIds = b.measureIds

theorem mapNotes_sameNames {f : Note → Note} (hf : ∀ note, (f note).id = note.id) :
    (doc.mapNotes f).SameNames doc where
  notes := by
    unfold noteIds Document.notes mapNotes
    simp only [List.map_flatMap, List.flatMap_map, List.map_map]
    congr 1
    funext m
    exact List.map_congr_left fun note _ => hf note
  measures := by
    unfold measureIds mapNotes
    rw [List.map_map]
    rfl

theorem nudge_sameNames (id : NoteId) (steps : Int32) : (doc.nudge id steps).SameNames doc := by
  unfold nudge
  split
  next => exact ⟨rfl, rfl⟩
  next =>
    apply mapNotes_sameNames
    intro note
    split
    · exact note.id_nudge steps
    · rfl

theorem setDuration_sameNames (id : NoteId) (duration : Duration) :
    (doc.setDuration id duration).SameNames doc := by
  apply mapNotes_sameNames
  intro note
  split <;> rfl

theorem transpose_sameNames (steps : Int32) : (doc.transpose steps).SameNames doc := by
  unfold transpose
  split
  next => exact ⟨rfl, rfl⟩
  next => exact doc.mapNotes_sameNames fun note => note.id_nudge steps

/-- Measures that are left out for holding no note take no note with them. -/
theorem flatMap_notes_filter_notes (measures : List Measure) :
    (measures.filter fun m => !m.notes.isEmpty).flatMap (·.notes) = measures.flatMap (·.notes) := by
  induction measures with
  | nil => rfl
  | cons m rest ih =>
    rw [List.filter_cons, List.flatMap_cons]
    split
    next => rw [List.flatMap_cons, ih]
    next h =>
      have hempty : m.notes = [] := by simpa using h
      rw [ih, hempty, List.nil_append]

theorem notes_delete (id : NoteId) :
    (doc.delete id).notes = doc.notes.filter fun note => note.id ≠ id := by
  unfold notes delete
  simp only [flatMap_notes_filter_notes, List.flatMap_map, List.filter_flatMap]

theorem noteIds_delete_sublist (id : NoteId) : (doc.delete id).noteIds.Sublist doc.noteIds := by
  unfold noteIds
  rw [notes_delete]
  exact List.filter_sublist.map _

theorem measureIds_delete_sublist (id : NoteId) :
    (doc.delete id).measureIds.Sublist doc.measureIds := by
  unfold measureIds delete
  have hsub := (List.filter_sublist (p := fun m : Measure => !m.notes.isEmpty)
    (l := doc.measures.map fun m =>
      { m with notes := m.notes.filter fun note => note.id ≠ id })).map (·.id)
  rw [List.map_map] at hsub
  exact hsub

theorem notes_append (h : doc.measures ≠ []) (note : Note) :
    (doc.append note).notes = doc.notes ++ [note] := by
  have hlast : doc.measures = doc.measures.dropLast ++ [doc.measures.getLast h] :=
    (List.dropLast_append_getLast h).symm
  unfold notes append
  rw [List.getLast?_eq_some_getLast h]
  conv_rhs => rw [hlast]
  simp only [List.flatMap_append, List.flatMap_singleton, List.append_assoc]

theorem noteIds_append {note : Note} (h : doc.measures ≠ []) :
    (doc.append note).noteIds = doc.noteIds ++ [note.id] := by
  unfold noteIds
  rw [doc.notes_append h, List.map_append, List.map_singleton]

theorem measureIds_append (note : Note) : (doc.append note).measureIds = doc.measureIds := by
  unfold measureIds append
  split
  next => rfl
  next last hlast =>
    obtain ⟨front, hfront⟩ := List.getLast?_eq_some_iff.mp hlast
    simp only [hfront, List.dropLast_concat, List.map_append, List.map_singleton]

end Document

/-! ## 2. Edits that draw names -/

/-- Made on this document with this supply, the edit uses each of the document's names at most once
and otherwise only names that it draws from the supply. -/
def Edit.NamesOnce (edit : Edit) (doc : Document) (ids : IdSupply) : Prop :=
  ∃ notes measures, ids.HandsOut notes measures (edit doc ids).2 ∧
    NamedFrom (edit doc ids).1.noteIds doc.noteIds notes ∧
    NamedFrom (edit doc ids).1.measureIds doc.measureIds measures

namespace Edit

variable {doc : Document} {ids : IdSupply} {edit : Edit}

/-- An edit that draws nothing and only leaves names out. -/
theorem NamesOnce.of_sublist (hnotes : doc.noteIds.Nodup) (hmeasures : doc.measureIds.Nodup)
    (hids : (edit doc ids).2 = ids) (hsub : (edit doc ids).1.noteIds.Sublist doc.noteIds)
    (hsub' : (edit doc ids).1.measureIds.Sublist doc.measureIds) : edit.NamesOnce doc ids := by
  refine ⟨[], [], ?_, .of_sublist hnotes hsub, .of_sublist hmeasures hsub'⟩
  rw [hids]
  exact .nothing ids

/-- An edit that draws nothing and keeps all names. -/
theorem NamesOnce.of_sameNames (hnotes : doc.noteIds.Nodup) (hmeasures : doc.measureIds.Nodup)
    (hids : (edit doc ids).2 = ids) (h : (edit doc ids).1.SameNames doc) :
    edit.NamesOnce doc ids := by
  apply NamesOnce.of_sublist hnotes hmeasures hids
  · rw [h.notes]
  · rw [h.measures]

theorem deleteEdit_namesOnce (id : NoteId) (hnotes : doc.noteIds.Nodup)
    (hmeasures : doc.measureIds.Nodup) : (Session.deleteEdit id).NamesOnce doc ids :=
  .of_sublist hnotes hmeasures rfl (doc.noteIds_delete_sublist id)
    (doc.measureIds_delete_sublist id)

theorem nudgeEdit_namesOnce (id : NoteId) (steps : Int32) (hnotes : doc.noteIds.Nodup)
    (hmeasures : doc.measureIds.Nodup) : (Session.nudgeEdit id steps).NamesOnce doc ids :=
  .of_sameNames hnotes hmeasures rfl (doc.nudge_sameNames id steps)

theorem durationEdit_namesOnce (id : NoteId) (duration : Duration) (hnotes : doc.noteIds.Nodup)
    (hmeasures : doc.measureIds.Nodup) : (Session.durationEdit id duration).NamesOnce doc ids :=
  .of_sameNames hnotes hmeasures rfl (doc.setDuration_sameNames id duration)

theorem transposeEdit_namesOnce (steps : Int32) (hnotes : doc.noteIds.Nodup)
    (hmeasures : doc.measureIds.Nodup) : (Session.transposeEdit steps).NamesOnce doc ids :=
  .of_sameNames hnotes hmeasures rfl (doc.transpose_sameNames steps)

/-- A note under the next name is behind all notes that are numbered so far. -/
theorem appendEdit_namesOnce (kind : NoteKind) (duration : Duration) (hne : doc.measures ≠ [])
    (hnotes : Numbered NoteId.number doc.noteIds ids.notes) (hmeasures : doc.measureIds.Nodup) :
    (Session.appendEdit kind duration).NamesOnce doc ids := by
  have hids : ((Session.appendEdit kind duration) doc ids).1.noteIds =
      doc.noteIds ++ [ids.nextNote.1] :=
    doc.noteIds_append hne
  have hids' : ((Session.appendEdit kind duration) doc ids).1.measureIds = doc.measureIds :=
    doc.measureIds_append _
  refine ⟨[ids.nextNote.1], [], .note (.nothing _), ⟨?_, ?_⟩, .of_sublist hmeasures ?_⟩
  · rw [hids, List.nodup_append]
    refine ⟨hnotes.nodup, List.nodup_singleton _, ?_⟩
    intro id hid new hnew heq
    -- the new name is numbered behind the supply's counter
    have hle := hnotes.le id hid
    rw [heq, List.mem_singleton.mp hnew] at hle
    exact absurd hle (Nat.not_succ_le_self ids.notes)
  · intro id hid
    rwa [hids, List.mem_append] at hid
  · rw [hids']

end Edit

end TextScore

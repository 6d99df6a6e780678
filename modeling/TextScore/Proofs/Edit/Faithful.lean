import Mathlib
import TextScore.Edit
import TextScore.Proofs.Notation.Legible
import TextScore.Proofs.Pitch.Degree

/-!
# Faithful — edits that stay inside the notation

An edit is faithful when it keeps title and tempo and leaves a legible document legible.  A nudge
brings every pitch between C3 and C6 and a deletion takes empty measures with it, so the edits by
name are all faithful; appending is, if the new note can be written.
-/

namespace TextScore

/-! ## 1. Notes -/

theorem Note.legible_nudge {note : Note} (h : note.kind.Legible) (steps : Int32) :
    (note.nudge steps).kind.Legible := by
  unfold Note.nudge
  split
  next p _ => exact (p.inRange_nudge steps).legible
  next => exact h

/-! ## 2. Documents -/

namespace Document

/-- The edited document has the old title and tempo and is legible if the old one was. -/
structure FaithfulTo (edited doc : Document) : Prop where
  legible : doc.Legible → edited.Legible
  title : edited.title = doc.title
  tempo : edited.tempo = doc.tempo

theorem FaithfulTo.refl (doc : Document) : doc.FaithfulTo doc :=
  ⟨fun h => h, rfl, rfl⟩

variable (doc : Document)

theorem mapNotes_faithful {f : Note → Note}
    (hf : ∀ note : Note, note.kind.Legible → (f note).kind.Legible) :
    (doc.mapNotes f).FaithfulTo doc := by
  refine ⟨fun h => ?_, rfl, rfl⟩
  show ∀ m ∈ doc.measures.map _, Measure.Legible m
  rw [List.forall_mem_map]
  intro m hm
  obtain ⟨hne, hsignature, hkinds⟩ := h m hm
  refine ⟨?_, hsignature, ?_⟩
  · simpa using hne
  · show ∀ note ∈ m.notes.map f, note.kind.Legible
    rw [List.forall_mem_map]
    exact fun note hnote => hf note (hkinds note hnote)

theorem delete_faithful (id : NoteId) : (doc.delete id).FaithfulTo doc := by
  refine ⟨fun h m hm => ?_, rfl, rfl⟩
  -- a measure that lost its last note is not kept
  obtain ⟨hkept, hne⟩ := List.mem_filter.mp hm
  obtain ⟨old, hold, rfl⟩ := List.mem_map.mp hkept
  obtain ⟨-, hsignature, hkinds⟩ := h old hold
  refine ⟨?_, hsignature, ?_⟩
  · simpa using hne
  · exact fun note hnote => hkinds note (List.mem_of_mem_filter hnote)

theorem append_faithful {note : Note} (hnote : note.kind.Legible) :
    (doc.append note).FaithfulTo doc := by
  unfold append
  split
  next => exact FaithfulTo.refl doc
  next last hlast =>
    refine ⟨fun h => ?_, rfl, rfl⟩
    show ∀ m ∈ doc.measures.dropLast ++ [_], Measure.Legible m
    rw [List.forall_mem_append, List.forall_mem_singleton]
    -- the last measure has one note more, and the others are the old ones
    obtain ⟨-, hsignature, hkinds⟩ := h last (List.mem_of_getLast? hlast)
    refine ⟨fun m hm => h m (List.mem_of_mem_dropLast hm), ?_, hsignature, ?_⟩
    · simp
    · rw [List.forall_mem_append, List.forall_mem_singleton]
      exact ⟨hkinds, hnote⟩

theorem nudge_faithful (id : NoteId) (steps : Int32) : (doc.nudge id steps).FaithfulTo doc := by
  unfold nudge
  split
  next => exact FaithfulTo.refl doc
  next =>
    apply mapNotes_faithful
    intro note hnote
    split
    next => exact Note.legible_nudge hnote steps
    next => exact hnote

theorem setDuration_faithful (id : NoteId) (duration : Duration) :
    (doc.setDuration id duration).FaithfulTo doc := by
  apply mapNotes_faithful
  intro note hnote
  split
  · exact hnote
  · exact hnote

theorem transpose_faithful (steps : Int32) : (doc.transpose steps).FaithfulTo doc := by
  unfold transpose
  split
  next => exact FaithfulTo.refl doc
  next => exact doc.mapNotes_faithful fun note hnote => Note.legible_nudge hnote steps

end Document

end TextScore

import Mathlib
import TextScore.Proofs.Edit.Deletion

/-!
# Commute — edits that may be made in either order

Apart from deletions, every edit maps the notes of a document one by one and keeps their names.
Two such edits commute if what they do to a single note does, and a deletion commutes with all of
them, since it goes by names alone.  So edits of different notes can be exchanged, and of those at
one note all but two of the same kind.
-/

namespace TextScore

/-! ## 1. One note -/

namespace Note

/-- The note moved by some steps, or left alone if there are none. -/
def moved (steps : Int32) (note : Note) : Note :=
  if steps = 0 then note else note.nudge steps

def lasting (duration : Duration) (note : Note) : Note :=
  { note with duration := duration }

/-- The change `f` at the note of a name. -/
def onlyAt (id : NoteId) (f : Note → Note) (note : Note) : Note :=
  if note.id = id then f note else note

theorem id_moved (steps : Int32) (note : Note) : (note.moved steps).id = note.id := by
  unfold moved
  split
  · rfl
  · exact note.id_nudge steps

theorem moved_of_ne_zero {steps : Int32} (h : steps ≠ 0) :
    moved steps = fun note => note.nudge steps := by
  funext note
  exact if_neg h

theorem moved_lasting (steps : Int32) (duration : Duration) :
    Function.Commute (moved steps) (lasting duration) := by
  intro note
  obtain ⟨id, kind, old⟩ := note
  unfold moved lasting nudge
  split
  · rfl
  -- a pitch moves whatever its length, and a rest does not
  · cases kind <;> rfl

section

variable {f g : Note → Note} {i j : NoteId}

theorem id_onlyAt (hf : ∀ note, (f note).id = note.id) (note : Note) :
    (onlyAt i f note).id = note.id := by
  unfold onlyAt
  split
  · exact hf note
  · rfl

theorem onlyAt_of_ne (hij : i ≠ j) (hf : ∀ note, (f note).id = note.id)
    (hg : ∀ note, (g note).id = note.id) : Function.Commute (onlyAt i f) (onlyAt j g) := by
  intro note
  unfold onlyAt
  by_cases hi : note.id = i
  · have hj : note.id ≠ j := fun hj => hij (hi.symm.trans hj)
    rw [if_neg hj, if_pos hi, if_neg (by rwa [hf])]
  · by_cases hj : note.id = j
    · rw [if_pos hj, if_neg (by rwa [hg]), if_neg hi, if_pos hj]
    · rw [if_neg hj, if_neg hi, if_neg hj]

/-- A change of all notes commutes with a change of one as it does with that change. -/
theorem onlyAt_left (hfg : Function.Commute f g) (hg : ∀ note, (g note).id = note.id) :
    Function.Commute (onlyAt i f) g := by
  intro note
  unfold onlyAt
  rw [hg]
  by_cases hi : note.id = i
  · rw [if_pos hi, if_pos hi, hfg note]
  · rw [if_neg hi, if_neg hi]

theorem onlyAt_onlyAt (hfg : Function.Commute f g) (hf : ∀ note, (f note).id = note.id)
    (hg : ∀ note, (g note).id = note.id) : Function.Commute (onlyAt i f) (onlyAt j g) := by
  have hright : Function.Commute (onlyAt j g) f := onlyAt_left hfg.symm hf
  exact onlyAt_left hright.symm (id_onlyAt hg)

end

end Note

/-! ## 2. Documents -/

namespace Document

variable (doc : Document)

theorem nudge_eq_mapNotes (id : NoteId) (steps : Int32) :
    doc.nudge id steps = doc.mapNotes (Note.onlyAt id (Note.moved steps)) := by
  unfold nudge
  by_cases hsteps : steps = 0
  · have hkept : ∀ note ∈ doc.notes, Note.onlyAt id (Note.moved steps) note = note := by
      intro note _
      unfold Note.onlyAt Note.moved
      rw [if_pos hsteps, ite_self]
    rw [if_pos hsteps, mapNotes_eq_self_iff.mpr hkept]
  · rw [if_neg hsteps, Note.moved_of_ne_zero hsteps]
    rfl

theorem setDuration_eq_mapNotes (id : NoteId) (duration : Duration) :
    doc.setDuration id duration = doc.mapNotes (Note.onlyAt id (Note.lasting duration)) := rfl

theorem transpose_eq_mapNotes (steps : Int32) :
    doc.transpose steps = doc.mapNotes (Note.moved steps) := by
  unfold transpose
  by_cases hsteps : steps = 0
  · have hkept : ∀ note ∈ doc.notes, Note.moved steps note = note := fun note _ => if_pos hsteps
    rw [if_pos hsteps, mapNotes_eq_self_iff.mpr hkept]
  · rw [if_neg hsteps, Note.moved_of_ne_zero hsteps]

theorem mapNotes_mapNotes (f g : Note → Note) :
    (doc.mapNotes f).mapNotes g = doc.mapNotes (g ∘ f) := by
  unfold mapNotes
  simp only [List.map_map, Function.comp_def]

theorem mapNotes_comm {f g : Note → Note} (h : Function.Commute f g) :
    (doc.mapNotes f).mapNotes g = (doc.mapNotes g).mapNotes f := by
  rw [mapNotes_mapNotes, mapNotes_mapNotes, h.comp_eq]

/-- Deleting goes by names, so it does not matter what else becomes of the notes. -/
theorem delete_mapNotes {f : Note → Note} (hf : ∀ note, (f note).id = note.id) (id : NoteId) :
    (doc.mapNotes f).delete id = (doc.delete id).mapNotes f := by
  have hnotes : ∀ notes : List Note, (notes.map f).filter (fun note => note.id ≠ id) =
      (notes.filter fun note => note.id ≠ id).map f := by
    intro notes
    rw [List.filter_map]
    congr 1
    apply List.filter_congr
    intro note _
    rw [Function.comp_apply, hf]
  unfold delete mapNotes
  simp only [List.map_map, List.filter_map, Function.comp_def, hnotes, List.isEmpty_map]

theorem without_without_comm (m : Measure) (i j : NoteId) :
    (m.without i).without j = (m.without j).without i := by
  unfold Measure.without
  simp only [List.filter_filter, Bool.and_comm]

/-- Two deletions are one: no note keeps either name, and what is empty in the end goes. -/
theorem delete_delete (i j : NoteId) :
    (doc.delete i).delete j =
      { doc with measures :=
          (doc.measures.map fun m => (m.without i).without j).filter fun m => !m.notes.isEmpty } := by
  -- leaving out empty measures in between makes no difference
  let stripped : Document := { doc with measures := doc.measures.map (·.without i) }
  have hmeasures : (stripped.delete j).measures =
      (doc.measures.map fun m => (m.without i).without j).filter fun m => !m.notes.isEmpty := by
    rw [measures_delete, List.map_map]
    rfl
  show stripped.pruned.delete j = _
  rw [delete_pruned, ← hmeasures]
  rfl

theorem delete_comm (i j : NoteId) : (doc.delete i).delete j = (doc.delete j).delete i := by
  rw [delete_delete, delete_delete]
  simp only [without_without_comm]

theorem delete_delete_self (id : NoteId) : (doc.delete id).delete id = doc.delete id := by
  have hwithout : ∀ m : Measure, (m.without id).without id = m.without id := by
    intro m
    unfold Measure.without
    simp only [List.filter_filter, Bool.and_self]
  rw [delete_delete]
  simp only [hwithout]
  rfl

end Document

/-! ## 3. Edits by name -/

/-- What can be done to a note by its name. -/
inductive NoteEdit where
  | delete
  | nudge (steps : Int32)
  | setDuration (duration : Duration)
  deriving DecidableEq, Repr

namespace NoteEdit

def perform (edit : NoteEdit) (id : NoteId) (doc : Document) : Document :=
  match edit with
  | delete => doc.delete id
  | nudge steps => doc.nudge id steps
  | setDuration duration => doc.setDuration id duration

/-- An edit that is no deletion changes the note of the name and keeps that name. -/
theorem eq_delete_or_mapNotes (edit : NoteEdit) :
    edit = delete ∨ ∃ f : Note → Note, (∀ note, (f note).id = note.id) ∧
      ∀ id doc, edit.perform id doc = doc.mapNotes (Note.onlyAt id f) := by
  cases edit with
  | delete => exact Or.inl rfl
  | nudge steps =>
    exact Or.inr ⟨Note.moved steps, Note.id_moved steps, fun id doc => doc.nudge_eq_mapNotes id steps⟩
  | setDuration duration =>
    exact Or.inr ⟨Note.lasting duration, fun _ => rfl, fun _ _ => rfl⟩

/-- A deletion can be exchanged with any edit, of the same note or another one. -/
theorem delete_perform (edit : NoteEdit) (i j : NoteId) (doc : Document) :
    (edit.perform j doc).delete i = edit.perform j (doc.delete i) := by
  rcases edit.eq_delete_or_mapNotes with rfl | ⟨f, hf, hperform⟩
  · exact doc.delete_comm j i
  · rw [hperform, hperform, doc.delete_mapNotes (Note.id_onlyAt hf)]

theorem perform_comm_of_ne (a b : NoteEdit) {i j : NoteId} (hij : i ≠ j) (doc : Document) :
    b.perform j (a.perform i doc) = a.perform i (b.perform j doc) := by
  rcases a.eq_delete_or_mapNotes with rfl | ⟨f, hf, ha⟩
  · exact (delete_perform b i j doc).symm
  rcases b.eq_delete_or_mapNotes with rfl | ⟨g, hg, hb⟩
  · exact delete_perform a j i doc
  · rw [ha, hb, hb, ha, doc.mapNotes_comm (Note.onlyAt_of_ne hij hf hg)]

/-- Edits of different notes can be made in either order, whatever the document: names may be borne
twice and measures empty.  Deletions commute at any names, and deleting twice is deleting once.  At
one note its pitch and its length can be changed in either order, and a transposition can be made
before or after a deletion and before or after a change of length. -/
theorem edits_commute (doc : Document) :
    (∀ (a b : NoteEdit) (i j : NoteId), i ≠ j →
        b.perform j (a.perform i doc) = a.perform i (b.perform j doc)) ∧
      (∀ i j, (doc.delete i).delete j = (doc.delete j).delete i) ∧
      (∀ id, (doc.delete id).delete id = doc.delete id) ∧
      (∀ id steps duration,
        (doc.nudge id steps).setDuration id duration =
          (doc.setDuration id duration).nudge id steps) ∧
      (∀ id steps, (doc.delete id).transpose steps = (doc.transpose steps).delete id) ∧
      ∀ id duration steps,
        (doc.setDuration id duration).transpose steps =
          (doc.transpose steps).setDuration id duration := by
  refine ⟨fun a b i j hij => perform_comm_of_ne a b hij doc, doc.delete_comm,
    doc.delete_delete_self, ?_, ?_, ?_⟩
  · intro id steps duration
    rw [Document.nudge_eq_mapNotes, Document.nudge_eq_mapNotes, Document.setDuration_eq_mapNotes,
      Document.setDuration_eq_mapNotes]
    apply doc.mapNotes_comm
    exact Note.onlyAt_onlyAt (Note.moved_lasting steps duration) (Note.id_moved steps) fun _ => rfl
  · intro id steps
    rw [Document.transpose_eq_mapNotes, Document.transpose_eq_mapNotes,
      doc.delete_mapNotes (Note.id_moved steps)]
  · intro id duration steps
    rw [Document.transpose_eq_mapNotes, Document.transpose_eq_mapNotes,
      Document.setDuration_eq_mapNotes, Document.setDuration_eq_mapNotes]
    apply doc.mapNotes_comm
    exact Note.onlyAt_left (Note.moved_lasting steps duration).symm (Note.id_moved steps)

/-- Two notes of one name in a measure of their own, an empty measure, and another note. -/
def twins : Document :=
  ⟨⟨1⟩, untitled, .standard,
    [⟨⟨1⟩, .common, [⟨⟨1⟩, .pitched ⟨.B, .flat, 4⟩, .half⟩, ⟨⟨1⟩, .rest, .half⟩]⟩,
      ⟨⟨2⟩, .common, []⟩,
      ⟨⟨3⟩, .common, [⟨⟨2⟩, .pitched ⟨.C, .natural, 6⟩, .whole⟩]⟩]⟩

theorem twins_edits_commute :
    let a : NoteEdit := .delete
    let b : NoteEdit := .nudge (-1)
    (⟨1⟩ : NoteId) ≠ ⟨2⟩ ∧
      b.perform ⟨2⟩ (a.perform ⟨1⟩ twins) = a.perform ⟨1⟩ (b.perform ⟨2⟩ twins) ∧
      (a.perform ⟨1⟩ (b.perform ⟨2⟩ twins)).measures =
        [⟨⟨3⟩, .common, [⟨⟨2⟩, .pitched ⟨.B, .natural, 5⟩, .whole⟩]⟩] := by
  intro a b
  have hne : (⟨1⟩ : NoteId) ≠ ⟨2⟩ := by decide
  exact ⟨hne, (edits_commute twins).1 a b ⟨1⟩ ⟨2⟩ hne, by decide⟩

end NoteEdit

end TextScore

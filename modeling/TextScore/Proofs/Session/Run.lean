import Mathlib
import TextScore.Session

/-!
# Run — a session under any sequence of operations

One step for each thing that can be done to a session, and runs of such steps.  Every edit goes
through `apply`, which either leaves text and document alone or writes both anew.
-/

namespace TextScore.Session

open Notation

/-! ## 1. Steps and runs -/

/-- What can be done to a session. -/
inductive Operation where
  | setText (text : String)
  | setTitle (title : String)
  | setTempo (bpm : Float)
  | markClean
  | appendNote (kind : NoteKind) (duration : Duration)
  | deleteNote (id : NoteId)
  | nudgePitch (id : NoteId) (steps : Int32)
  | setDuration (id : NoteId) (duration : Duration)
  | apply (edit : Edit)

/-- One operation, whatever it reports. -/
def step (s : Session) : Operation → Session
  | .setText text => s.setText text
  | .setTitle title => s.setTitle title
  | .setTempo bpm => (s.setTempo bpm).2
  | .markClean => s.markClean
  | .appendNote kind duration => (s.appendNote kind duration).2
  | .deleteNote id => s.deleteNote id
  | .nudgePitch id steps => s.nudgePitch id steps
  | .setDuration id duration => s.setDuration id duration
  | .apply edit => s.apply edit

def run (s : Session) (ops : List Operation) : Session :=
  ops.foldl step s

theorem run_nil (s : Session) : s.run [] = s := rfl

theorem run_cons (s : Session) (op : Operation) (ops : List Operation) :
    s.run (op :: ops) = (s.step op).run ops := rfl

theorem run_append (s : Session) (ops later : List Operation) :
    s.run (ops ++ later) = (s.run ops).run later :=
  List.foldl_append

/-- Every operation is admitted in the session in which it is made. -/
def Admits (admitted : Session → Operation → Prop) : Session → List Operation → Prop
  | _, [] => True
  | s, op :: ops => admitted s op ∧ Admits admitted (s.step op) ops

theorem admits_append {admitted : Session → Operation → Prop} {s : Session}
    {ops later : List Operation} :
    Admits admitted s (ops ++ later) ↔
      Admits admitted s ops ∧ Admits admitted (s.run ops) later := by
  induction ops generalizing s with
  | nil => simp only [List.nil_append, Admits, true_and, run_nil]
  | cons op ops ih =>
    rw [List.cons_append, Admits, Admits, run_cons, ih, and_assoc]

/-- Between two moments of an admitted run lies an admitted run. -/
theorem exists_between {admitted : Session → Operation → Prop} {s : Session} {ops : List Operation}
    (hops : Admits admitted s ops) {i j : Nat} (hij : i ≤ j) :
    ∃ between, s.run (ops.take j) = (s.run (ops.take i)).run between ∧
      Admits admitted (s.run (ops.take i)) between := by
  have hsplit : ops.take j = ops.take i ++ (ops.take j).drop i := by
    have := List.take_append_drop i (ops.take j)
    rwa [List.take_take, min_eq_left hij, eq_comm] at this
  have hfirst : Admits admitted s (ops.take j) := by
    rw [← List.take_append_drop j ops, admits_append] at hops
    exact hops.1
  refine ⟨(ops.take j).drop i, ?_, ?_⟩
  · rw [← run_append, ← hsplit]
  · rw [hsplit, admits_append] at hfirst
    exact hfirst.2

theorem admits_of_forall {admitted : Operation → Prop} {ops : List Operation}
    (hops : ∀ op ∈ ops, admitted op) (s : Session) : Admits (fun _ => admitted) s ops := by
  induction ops generalizing s with
  | nil => trivial
  | cons op ops ih =>
    obtain ⟨hop, hops⟩ := List.forall_mem_cons.mp hops
    exact ⟨hop, ih hops (s.step op)⟩

/-- What every admitted step preserves, a run of steps that are admitted where they are made
preserves. -/
theorem run_invariant_of_admits {P : Session → Prop} {admitted : Session → Operation → Prop}
    (hstep : ∀ s op, P s → admitted s op → P (s.step op)) {s : Session} {ops : List Operation}
    (hstart : P s) (hops : Admits admitted s ops) : P (s.run ops) := by
  -- the step is made first, so the induction is over all sessions
  induction ops generalizing s with
  | nil => exact hstart
  | cons op ops ih =>
    obtain ⟨hop, hops⟩ := hops
    rw [run_cons]
    exact ih (hstep s op hstart hop) hops

/-- What every admitted step preserves, a run of admitted steps preserves. -/
theorem run_invariant {P : Session → Prop} {admitted : Operation → Prop}
    (hstep : ∀ s op, P s → admitted op → P (s.step op)) {s : Session} {ops : List Operation}
    (hstart : P s) (hops : ∀ op ∈ ops, admitted op) : P (s.run ops) :=
  run_invariant_of_admits hstep hstart (admits_of_forall hops s)

/-! ## 2. What an edit does -/

/-- The session once an edited document has been written back to the text. -/
def rewritten (s : Session) (edited : Document) (ids : IdSupply) : Session :=
  { s with
    text := print edited
    ids := ids
    output :=
      { document := some edited
        diagnostics := []
        warnings := warningsOn s ids (print edited)
        measureLines := List.range' 1 edited.measures.length }
    dirty := true }

/-- Without a document nothing happens, an edit without effect only draws identifiers, and any
other edit rewrites the session. -/
theorem apply_cases (s : Session) (edit : Edit) :
    (s.output.document = none ∧ s.apply edit = s) ∨
      ∃ doc, s.output.document = some doc ∧
        ((edit doc s.ids).1 = doc ∧ s.apply edit = { s with ids := (edit doc s.ids).2 } ∨
          (edit doc s.ids).1 ≠ doc ∧
            s.apply edit = s.rewritten (edit doc s.ids).1 (edit doc s.ids).2) := by
  cases hdoc : s.output.document with
  | none =>
    left
    refine ⟨rfl, ?_⟩
    unfold apply
    rw [hdoc]
  | some doc =>
    right
    refine ⟨doc, rfl, ?_⟩
    unfold apply
    rw [hdoc]
    by_cases h : (edit doc s.ids).1 = doc
    · exact Or.inl ⟨h, if_pos h⟩
    · exact Or.inr ⟨h, if_neg h⟩

/-- What an edit makes of the document is the document from then on, written back or not. -/
theorem document_apply (s : Session) (edit : Edit) :
    (s.apply edit).document? = s.document?.map fun doc => (edit doc s.ids).1 := by
  unfold document?
  rcases s.apply_cases edit with ⟨hdoc, happly⟩ | ⟨doc, hdoc, ⟨hkept, happly⟩ | ⟨-, happly⟩⟩
  · rw [happly, hdoc, Option.map_none]
  · rw [happly, hdoc, Option.map_some, hkept]
  · rw [happly, hdoc, Option.map_some]
    rfl

theorem apply_of_ne {s : Session} {edit : Edit} {doc : Document} (hdoc : doc ∈ s.document?)
    (hnew : (edit doc s.ids).1 ≠ doc) :
    s.apply edit = s.rewritten (edit doc s.ids).1 (edit doc s.ids).2 := by
  have hdoc : s.output.document = some doc := hdoc
  unfold apply
  rw [hdoc]
  exact if_neg hnew

/-- The session under another tempo. -/
def withTempo (s : Session) (tempo : Tempo) : Session :=
  { s with
    tempo := tempo
    output :=
      { s.output with document := s.output.document.map fun doc => { doc with tempo := tempo } }
    dirty := true }

/-- A tempo that can be played is taken over, any other is refused and leaves the session as it
was. -/
theorem step_setTempo_cases (s : Session) (bpm : Float) :
    (∃ tempo, Tempo.ofBpm bpm = .ok tempo ∧ s.step (.setTempo bpm) = s.withTempo tempo) ∨
      (∃ error, Tempo.ofBpm bpm = .error error) ∧ s.step (.setTempo bpm) = s := by
  show (∃ tempo, _ ∧ (s.setTempo bpm).2 = _) ∨ _ ∧ (s.setTempo bpm).2 = s
  unfold setTempo
  cases h : Tempo.ofBpm bpm with
  | ok tempo => exact Or.inl ⟨tempo, rfl, rfl⟩
  | error error => exact Or.inr ⟨⟨error, rfl⟩, rfl⟩

theorem canAppend_iff_of_document {s : Session} {doc : Document} (hdoc : doc ∈ s.document?) :
    s.canAppend = true ↔ doc.measures ≠ [] := by
  have hdoc : s.output.document = some doc := hdoc
  unfold canAppend
  rw [hdoc]
  simp [Document.isEmpty]

/-- Appending is an edit, except that a session without measures is left alone. -/
theorem step_appendNote_cases (s : Session) (kind : NoteKind) (duration : Duration) :
    (s.canAppend = true ∧
        s.step (.appendNote kind duration) = s.apply (appendEdit kind duration)) ∨
      s.canAppend = false ∧ s.step (.appendNote kind duration) = s := by
  show (_ ∧ (s.appendNote kind duration).2 = _) ∨ _ ∧ (s.appendNote kind duration).2 = s
  unfold appendNote
  split
  next h => exact Or.inl ⟨h, rfl⟩
  next h => exact Or.inr ⟨eq_false_of_ne_true h, rfl⟩

end TextScore.Session

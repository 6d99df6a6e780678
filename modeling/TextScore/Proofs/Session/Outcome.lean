import Mathlib
import TextScore.Proofs.Edit.Effect
import TextScore.Proofs.Notation.Legible
import TextScore.Proofs.Session.Names

/-!
# Outcome — an edit by name does all of its work or none

A text that is being typed may hold what cannot be read, and an edit drops it.  So it matters that
an edit with nothing to do leaves the text alone, to the last character.  Which edits these are can
be told from the note under the name.  Two facts about sessions enter: no name is borne twice, and
no measure is without a note.
-/

namespace TextScore.Session

open Notation

/-! ## 1. Measures with notes -/

/-- The document of the session, if there is one, has no measure without a note. -/
def Filled (s : Session) : Prop :=
  ∀ doc ∈ s.document?, doc.Filled

variable {s : Session}

theorem filled_of_read (ids : IdSupply) (options : ParseOptions) (text : String)
    (h : s.output = (parseFrom ids options text).1) : s.Filled := by
  intro doc hdoc m hm
  have hread : (parseFrom ids options text).1.document = some doc := by
    rw [← h]
    exact hdoc
  exact (legible_of_parseFrom hread m hm).1

/-- Another title or tempo leaves the measures alone. -/
theorem Filled.of_map_document {after : Session} {f : Document → Document}
    (h : s.Filled) (hf : ∀ doc, (f doc).measures = doc.measures)
    (hdocument : after.output.document = s.output.document.map f) : after.Filled := by
  intro doc hdoc
  have hdoc : s.output.document.map f = some doc := by
    rw [← hdocument]
    exact hdoc
  obtain ⟨old, hold, rfl⟩ := Option.map_eq_some_iff.mp hdoc
  show ∀ m ∈ (f old).measures, m.notes ≠ []
  rw [hf]
  exact h old hold

theorem start_filled (layout : StaffStyle Float) (options : ParseOptions) (text : String) :
    (start layout options text).Filled :=
  filled_of_read .fresh _ text rfl

theorem filled_setText (h : s.Filled) (text : String) : (s.setText text).Filled := by
  unfold setText
  split
  next => exact h
  next => exact filled_of_read s.ids s.parseOptions text rfl

theorem filled_apply (h : s.Filled) {edit : Edit}
    (hedit : ∀ (doc : Document) (ids : IdSupply), doc.Filled → (edit doc ids).1.Filled) :
    (s.apply edit).Filled := by
  intro edited hedited
  rw [document_apply] at hedited
  obtain ⟨doc, hdoc, rfl⟩ := Option.mem_map.mp hedited
  exact hedit doc s.ids (h doc hdoc)

/-- Everything but edits from outside; a transposition is known. -/
def Operation.ByName : Operation → Prop
  | .apply edit => ∃ steps, edit = transposeEdit steps
  | _ => True

theorem filled_step (h : s.Filled) {op : Operation} (hop : op.ByName) : (s.step op).Filled := by
  cases op with
  | setText text => exact filled_setText h text
  | setTitle title =>
    apply h.of_map_document (f := fun doc => { doc with title := title })
    · exact fun _ => rfl
    · rfl
  | setTempo bpm =>
    rcases s.step_setTempo_cases bpm with ⟨tempo, -, hstep⟩ | ⟨-, hstep⟩
    · rw [hstep]
      apply h.of_map_document (f := fun doc => { doc with tempo := tempo })
      · exact fun _ => rfl
      · rfl
    · rw [hstep]
      exact h
  | markClean => exact h
  | appendNote kind duration =>
    rcases s.step_appendNote_cases kind duration with ⟨-, hstep⟩ | ⟨-, hstep⟩
    · rw [hstep]
      exact filled_apply h fun doc ids hdoc => hdoc.append _
    · rw [hstep]
      exact h
  | deleteNote id => exact filled_apply h fun doc _ _ => doc.filled_delete id
  | nudgePitch id steps => exact filled_apply h fun _ _ hdoc => hdoc.nudge id steps
  | setDuration id duration => exact filled_apply h fun _ _ hdoc => hdoc.mapNotes _
  | apply edit =>
    obtain ⟨steps, rfl⟩ := hop
    exact filled_apply h fun _ _ hdoc => hdoc.transpose steps

/-- Operations by name use names once, so they keep what is known of names. -/
theorem named_step (h : s.Named) {op : Operation} (hop : op.ByName) : (s.step op).Named := by
  have honce : op.NamesOnce s := by
    cases op with
    | apply edit =>
      obtain ⟨steps, rfl⟩ := hop
      intro doc hdoc
      obtain ⟨hnotes, hmeasures⟩ := h.of_document hdoc
      exact Edit.transposeEdit_namesOnce steps hnotes.nodup hmeasures.nodup
    | _ => trivial
  obtain ⟨notes, measures, hdraws⟩ := step_draws h honce
  exact h.of_draws hdraws

/-! ## 2. The two outcomes -/

/-- Nothing that an edit could touch is different. -/
structure Unchanged (s after : Session) : Prop where
  text : after.text = s.text
  document : after.document? = s.document?
  diagnostics : after.output.diagnostics = s.output.diagnostics
  warnings : after.output.warnings = s.output.warnings
  dirty : after.dirty = s.dirty

/-- There is another document, the text is what it prints as, and no diagnostic is left. -/
structure WrittenBack (s after : Session) : Prop where
  document : after.document? ≠ s.document?
  text : ∃ doc, after.document? = some doc ∧ after.text = print doc
  diagnostics : after.output.diagnostics = []
  dirty : after.dirty = true

/-- One of the two outcomes, the first one exactly when there is nothing to do.  Then not even an
identifier is drawn. -/
structure AllOrNothing (s after : Session) (nothing : Prop) : Prop where
  unchanged_iff : s.Unchanged after ↔ nothing
  same : nothing → after = s
  written : ¬nothing → s.WrittenBack after

theorem WrittenBack.not_unchanged {after : Session} (h : s.WrittenBack after) :
    ¬s.Unchanged after := by
  intro hsame
  exact h.document hsame.document

theorem AllOrNothing.of_cases {after : Session} {nothing : Prop} (hsame : nothing → after = s)
    (hwritten : ¬nothing → s.WrittenBack after) : AllOrNothing s after nothing where
  unchanged_iff := by
    constructor
    · intro h
      by_contra hnot
      exact (hwritten hnot).not_unchanged h
    · intro h
      rw [hsame h]
      exact ⟨rfl, rfl, rfl, rfl, rfl⟩
  same := hsame
  written := hwritten

/-- An edit that draws no identifiers does all or nothing, by what it makes of the document. -/
theorem apply_allOrNothing {edit : Edit} {nothing : Prop}
    (hids : ∀ doc ∈ s.document?, (edit doc s.ids).1 = doc → (edit doc s.ids).2 = s.ids)
    (hnone : s.document? = none → nothing)
    (hsome : ∀ doc ∈ s.document?, (edit doc s.ids).1 = doc ↔ nothing) :
    AllOrNothing s (s.apply edit) nothing := by
  -- there is no document, or the edit gives back the same one, or another
  rcases s.apply_cases edit with ⟨hdoc, happly⟩ | ⟨doc, hdoc, ⟨hkept, happly⟩ | ⟨hnew, happly⟩⟩
  · apply AllOrNothing.of_cases
    · exact fun _ => happly
    · exact fun hnot => absurd (hnone hdoc) hnot
  · apply AllOrNothing.of_cases
    · intro _
      rw [happly, hids doc hdoc hkept]
    · exact fun hnot => absurd ((hsome doc hdoc).mp hkept) hnot
  · apply AllOrNothing.of_cases
    · exact fun h => absurd ((hsome doc hdoc).mpr h) hnew
    · intro _
      rw [happly]
      refine ⟨?_, ⟨_, rfl, rfl⟩, rfl, rfl⟩
      show some (edit doc s.ids).1 ≠ s.output.document
      rw [hdoc]
      exact fun heq => hnew (Option.some.inj heq)

/-! ## 3. The four edits -/

/-- The note under a name, if the document has one. -/
def noteNamed? (s : Session) (id : NoteId) : Option Note :=
  s.document?.bind fun doc => doc.find? id

theorem noteNamed?_of_document {doc : Document} (hdoc : doc ∈ s.document?) (id : NoteId) :
    s.noteNamed? id = doc.find? id := by
  unfold noteNamed?
  rw [Option.mem_def.mp hdoc, Option.bind_some]

theorem noteNamed?_of_none (hdoc : s.document? = none) (id : NoteId) :
    s.noteNamed? id = none := by
  unfold noteNamed?
  rw [hdoc, Option.bind_none]

theorem canAppend_eq_false_iff :
    s.canAppend = false ↔ ∀ doc ∈ s.document?, doc.measures = [] := by
  show s.document?.any (fun doc => !doc.isEmpty) = false ↔ _
  cases s.document? with
  | none => simp
  | some doc => simp [Document.isEmpty]

theorem appendNote_allOrNothing (kind : NoteKind) (duration : Duration) :
    AllOrNothing s (s.appendNote kind duration).2 (∀ doc ∈ s.document?, doc.measures = []) := by
  rw [← canAppend_eq_false_iff]
  unfold appendNote
  cases hcan : s.canAppend with
  | false =>
    apply AllOrNothing.of_cases
    · exact fun _ => rfl
    · exact fun hnot => absurd rfl hnot
  | true =>
    show AllOrNothing s (s.apply (appendEdit kind duration)) _
    have hmeasures : ¬∀ doc ∈ s.document?, doc.measures = [] := by
      rw [← canAppend_eq_false_iff, hcan]
      decide
    -- the note is there afterwards, so the document is another one
    have hnew : ∀ doc ∈ s.document?, (appendEdit kind duration doc s.ids).1 ≠ doc := by
      intro doc hdoc
      apply Document.append_ne_self
      intro hempty
      apply hmeasures
      intro other hother
      rwa [Option.mem_unique hother hdoc]
    apply apply_allOrNothing
    · exact fun doc hdoc heq => absurd heq (hnew doc hdoc)
    · intro hnone
      refine absurd (fun doc hdoc => ?_) hmeasures
      rw [hnone] at hdoc
      cases hdoc
    · intro doc hdoc
      exact iff_of_false (hnew doc hdoc) (by decide)

theorem appendNote_eq_none_iff (kind : NoteKind) (duration : Duration) :
    (s.appendNote kind duration).1 = none ↔ ∀ doc ∈ s.document?, doc.measures = [] := by
  rw [← canAppend_eq_false_iff]
  unfold appendNote
  cases s.canAppend with
  | false => exact iff_of_true rfl rfl
  | true => exact iff_of_false (Option.some_ne_none _) (by decide)

theorem deleteNote_allOrNothing (h : s.Filled) (id : NoteId) :
    AllOrNothing s (s.deleteNote id) (s.noteNamed? id = none) := by
  apply apply_allOrNothing
  · exact fun _ _ _ => rfl
  · exact fun hdoc => noteNamed?_of_none hdoc id
  · intro doc hdoc
    rw [noteNamed?_of_document hdoc]
    exact Document.delete_eq_self_iff (h doc hdoc)

theorem setDuration_allOrNothing (h : s.Named) (id : NoteId) (duration : Duration) :
    AllOrNothing s (s.setDuration id duration)
      (∀ note ∈ s.noteNamed? id, note.duration = duration) := by
  apply apply_allOrNothing
  · exact fun _ _ _ => rfl
  · intro hdoc note hnote
    rw [noteNamed?_of_none hdoc] at hnote
    cases hnote
  · intro doc hdoc
    rw [noteNamed?_of_document hdoc]
    exact Document.setDuration_eq_self_iff (h.of_document hdoc).1.nodup

theorem nudgePitch_allOrNothing (h : s.Named) (id : NoteId) (steps : Int32) :
    AllOrNothing s (s.nudgePitch id steps)
      (steps = 0 ∨ ∀ note ∈ s.noteNamed? id,
        note.kind = .rest ∨ ∃ p, note.kind = .pitched p ∧ p.nudge steps = p) := by
  apply apply_allOrNothing
  · exact fun _ _ _ => rfl
  · intro hdoc
    right
    intro note hnote
    rw [noteNamed?_of_none hdoc] at hnote
    cases hnote
  · intro doc hdoc
    rw [noteNamed?_of_document hdoc]
    exact Document.nudge_eq_self_iff (h.of_document hdoc).1.nodup

/-! ## 4. Runs -/

/-- In every session that was reached by operations by name, each edit by name either changes
nothing or writes another document back.  It changes nothing exactly when there is nothing for it to
do: no measure to append to, no note under the name, a note that has the length already, or no way
to move. -/
theorem run_edits_all_or_nothing (layout : StaffStyle Float) (options : ParseOptions)
    (text : String) (ops : List Operation) (hops : ∀ op ∈ ops, op.ByName) :
    let s := (start layout options text).run ops
    (∀ kind duration,
        AllOrNothing s (s.appendNote kind duration).2 (∀ doc ∈ s.document?, doc.measures = []) ∧
        ((s.appendNote kind duration).1 = none ↔ ∀ doc ∈ s.document?, doc.measures = [])) ∧
      (∀ id, AllOrNothing s (s.deleteNote id) (s.noteNamed? id = none)) ∧
      (∀ id duration, AllOrNothing s (s.setDuration id duration)
        (∀ note ∈ s.noteNamed? id, note.duration = duration)) ∧
      ∀ id steps, AllOrNothing s (s.nudgePitch id steps)
        (steps = 0 ∨ ∀ note ∈ s.noteNamed? id,
          note.kind = .rest ∨ ∃ p, note.kind = .pitched p ∧ p.nudge steps = p) := by
  intro s
  -- deletion needs that no measure is empty, the other edits that no name is borne twice
  have hfilled : s.Filled :=
    run_invariant (P := Filled) (fun _ _ hs hop => filled_step hs hop)
      (start_filled layout options text) hops
  have hnamed : s.Named :=
    run_invariant (P := Named) (fun _ _ hs hop => named_step hs hop)
      (start_named layout options text) hops
  refine ⟨fun kind duration => ⟨?_, ?_⟩, ?_, ?_, ?_⟩
  · exact appendNote_allOrNothing kind duration
  · exact appendNote_eq_none_iff kind duration
  · exact deleteNote_allOrNothing hfilled
  · exact setDuration_allOrNothing hnamed
  · exact nudgePitch_allOrNothing hnamed

/-- A text with an unreadable pair is set and marked clean. -/
def typing : List Operation :=
  [.setText "C6 q Z9 q R h", .markClean]

/-- The highest pitch cannot rise and has its length already, so the text keeps what cannot be read.
Deleting the rest writes the document back, and the unreadable pair is gone. -/
theorem typing_edits_all_or_nothing :
    let s := (start .standard .none "").run typing
    (∀ op ∈ typing, op.ByName) ∧
      s.noteNamed? ⟨1⟩ = some ⟨⟨1⟩, .pitched .highest, .quarter⟩ ∧
      s.nudgePitch ⟨1⟩ 3 = s ∧
      s.setDuration ⟨1⟩ .quarter = s ∧
      s.deleteNote ⟨9⟩ = s ∧
      s.text = "C6 q Z9 q R h" ∧
      s.WrittenBack (s.deleteNote ⟨2⟩) ∧
      (s.deleteNote ⟨2⟩).text = "C6 q" := by
  intro s
  have hops : ∀ op ∈ typing, op.ByName := by
    unfold typing
    simp only [List.forall_mem_cons, List.not_mem_nil, false_implies, implies_true, and_true]
    exact ⟨trivial, trivial⟩
  obtain ⟨-, hdelete, hduration, hnudge⟩ := run_edits_all_or_nothing .standard .none "" typing hops
  have hnote : s.noteNamed? ⟨1⟩ = some ⟨⟨1⟩, .pitched .highest, .quarter⟩ := by decide
  refine ⟨hops, hnote, ?_, ?_, ?_, by decide, ?_, by decide⟩
  · apply (hnudge ⟨1⟩ 3).same
    right
    intro note hmem
    obtain rfl : _ = note := Option.some.inj (hnote.symm.trans hmem)
    exact Or.inr ⟨.highest, rfl, by decide⟩
  · apply (hduration ⟨1⟩ .quarter).same
    intro note hmem
    obtain rfl : _ = note := Option.some.inj (hnote.symm.trans hmem)
    rfl
  · apply (hdelete ⟨9⟩).same
    decide
  · apply (hdelete ⟨2⟩).written
    decide

end TextScore.Session

import Mathlib
import TextScore.Proofs.Edit.Faithful
import TextScore.Proofs.Notation.RoundTrip
import TextScore.Proofs.Session.Heading

/-!
# Agreement — a session holds what its text reads as

Setting a text reads it; an edit keeps the edited document and writes it to the text.  Both end in
the same place: whatever reads the text afterwards finds what the session holds.  The reason is that
a document that was read is legible, that faithful edits keep it legible, and that a legible
document comes back from its text.
-/

namespace TextScore

open Notation

/-- An edit that draws whatever identifiers it likes and leaves a faithful document. -/
def Edit.Faithful (edit : Edit) : Prop :=
  ∀ (doc : Document) (ids : IdSupply), (edit doc ids).1.FaithfulTo doc

namespace Session

/-! ## 1. The invariant -/

/-- The session holds what its text reads as, under its own title and tempo. -/
structure Agrees (s : Session) : Prop where
  reads : s.output.Matches (parse .none s.text)
  titled : ∀ doc, s.output.document = some doc → doc.title = s.title ∧ doc.tempo = s.tempo

theorem Agrees.headed {s : Session} (h : s.Agrees) : s.Headed :=
  headed_iff.mpr h.titled

theorem Agrees.legible {s : Session} (h : s.Agrees) {doc : Document}
    (hdoc : s.output.document = some doc) : doc.Legible := by
  -- the text reads as a legible document, and legibility is a matter of content
  have hcontent := h.reads.content
  rw [hdoc, Option.map_some] at hcontent
  obtain ⟨again, hread, hsame⟩ := Option.map_eq_some_iff.mp hcontent.symm
  have hagain : again.Legible := legible_of_parseFrom hread
  rw [Document.legible_iff_content] at hagain ⊢
  rwa [← hsame]

theorem agrees_of_read {s : Session} (ids : IdSupply)
    (h : s.output = (parseFrom ids s.parseOptions s.text).1) : s.Agrees where
  reads := by
    rw [h]
    exact parseFrom_matches ids s.parseOptions s.text IdSupply.fresh .none
  titled := headed_iff.mp (headed_of_read ids h)

/-! ## 2. One step -/

theorem start_agrees (layout : StaffStyle Float) (options : ParseOptions) (text : String) :
    (start layout options text).Agrees := by
  unfold start
  exact agrees_of_read .fresh rfl

theorem setText_agrees {s : Session} (h : s.Agrees) (text : String) : (s.setText text).Agrees := by
  unfold setText
  split
  next => exact h
  next => exact agrees_of_read s.ids rfl

theorem setTitle_agrees {s : Session} (h : s.Agrees) (title : String) :
    (s.setTitle title).Agrees where
  reads :=
    { h.reads with
      content := by
        show (s.output.document.map _).map Document.content = _
        rw [Option.map_map]
        exact h.reads.content }
  titled := headed_iff.mp (h.headed.setTitle title)

theorem setTempo_agrees {s : Session} (h : s.Agrees) (bpm : Float) :
    (s.step (.setTempo bpm)).Agrees := by
  rcases step_setTempo_cases s bpm with ⟨tempo, -, hstep⟩ | ⟨-, hstep⟩
  · rw [hstep]
    refine ⟨{ h.reads with content := ?_ }, headed_iff.mp (h.headed.withTempo tempo)⟩
    show (s.output.document.map _).map Document.content = _
    rw [Option.map_map]
    exact h.reads.content
  · rw [hstep]
    exact h

/-- A legible document that is written to the text is what the text reads as. -/
theorem rewritten_agrees {s : Session} {edited : Document} (ids : IdSupply)
    (hlegible : edited.Legible) (htitle : edited.title = s.title) (htempo : edited.tempo = s.tempo) :
    (s.rewritten edited ids).Agrees where
  reads :=
    { content := (document_parseFrom_print IdSupply.fresh .none hlegible).symm
      diagnostics := (diagnostics_parseFrom_print IdSupply.fresh .none hlegible).symm
      -- the warnings come from a second reading, under the session's title and tempo
      warnings := (parseFrom_matches (IdSupply.startingAfter ids.highest) s.parseOptions
        (print edited) IdSupply.fresh .none).warnings
      measureLines := (measureLines_parseFrom_print IdSupply.fresh .none hlegible).symm }
  titled doc hdoc := by
    obtain rfl : edited = doc := Option.some.inj hdoc
    exact ⟨htitle, htempo⟩

theorem apply_agrees {s : Session} (h : s.Agrees) (edit : Edit) (hedit : edit.Faithful) :
    (s.apply edit).Agrees := by
  rcases s.apply_cases edit with ⟨-, happly⟩ | ⟨doc, hdoc, ⟨-, happly⟩ | ⟨-, happly⟩⟩
  · rw [happly]
    exact h
  · rw [happly]
    exact ⟨h.reads, h.titled⟩
  -- what was read is legible, so what a faithful edit makes of it is
  · rw [happly]
    obtain ⟨hlegible, htitle, htempo⟩ := hedit doc s.ids
    obtain ⟨htitled, htempoed⟩ := h.titled doc hdoc
    exact rewritten_agrees _ (hlegible (h.legible hdoc)) (htitle.trans htitled)
      (htempo.trans htempoed)

/-! ## 3. Runs -/

/-- The operations whose notes can be written; of the edits, those by name. -/
def Operation.Writable : Operation → Prop
  | .appendNote kind _ => kind.Legible
  | .apply edit => ∃ steps, edit = transposeEdit steps
  | _ => True

theorem step_agrees {s : Session} (h : s.Agrees) {op : Operation} (hop : op.Writable) :
    (s.step op).Agrees := by
  cases op with
  | setText text => exact setText_agrees h text
  | setTitle title => exact setTitle_agrees h title
  | setTempo bpm => exact setTempo_agrees h bpm
  | markClean => exact ⟨h.reads, h.titled⟩
  | appendNote kind duration =>
    rcases step_appendNote_cases s kind duration with ⟨-, hstep⟩ | ⟨-, hstep⟩
    · rw [hstep]
      exact apply_agrees h (appendEdit kind duration) fun doc _ => doc.append_faithful hop
    · rw [hstep]
      exact h
  | deleteNote id => exact apply_agrees h (deleteEdit id) fun doc _ => doc.delete_faithful id
  | nudgePitch id steps =>
    exact apply_agrees h (nudgeEdit id steps) fun doc _ => doc.nudge_faithful id steps
  | setDuration id duration =>
    exact apply_agrees h (durationEdit id duration) fun doc _ => doc.setDuration_faithful id duration
  | apply edit =>
    obtain ⟨steps, rfl⟩ := hop
    exact apply_agrees h (transposeEdit steps) fun doc _ => doc.transpose_faithful steps

/-- However a session was run, reading its text finds what it holds. -/
theorem run_reads_as_text (layout : StaffStyle Float) (options reading : ParseOptions)
    (text : String) (ops : List Operation) (hops : ∀ op ∈ ops, op.Writable) :
    let s := (start layout options text).run ops
    let read := parse reading s.text
    (s.document?.isSome = read.document.isSome) ∧
      (∀ doc ∈ s.document?, ∀ again ∈ read.document, doc.sameContent again = true) ∧
      s.output.diagnostics = read.diagnostics ∧
      s.output.warnings = read.warnings ∧
      s.output.measureLines = read.measureLines ∧
      ∀ doc ∈ s.document?, doc.title = s.title ∧ doc.tempo = s.tempo := by
  intro s read
  have hagrees : s.Agrees :=
    run_invariant (P := Agrees) (fun _ _ hs hop => step_agrees hs hop)
      (start_agrees layout options text) hops
  obtain ⟨hcontent, hdiagnostics, hwarnings, hlines⟩ := hagrees.reads
  have hread := parseFrom_matches IdSupply.fresh .none s.text IdSupply.fresh reading
  have hsame : s.document?.map Document.content = read.document.map Document.content :=
    hcontent.trans hread.content
  refine ⟨?_, ?_, hdiagnostics.trans hread.diagnostics, hwarnings.trans hread.warnings,
    hlines.trans hread.measureLines, hagrees.titled⟩
  · have := congrArg Option.isSome hsame
    rwa [Option.isSome_map, Option.isSome_map] at this
  · intro doc hdoc again hagain
    rw [Option.mem_def.mp hdoc, Option.mem_def.mp hagain] at hsame
    exact decide_eq_true (Option.some.inj hsame)

/-- All pitches up a step, a rest at the end, and the first note gone. -/
def retouch : List Operation :=
  [.apply (transposeEdit 1), .appendNote .rest .half, .deleteNote ⟨1⟩]

/-- A text with an unreadable pair, retouched. -/
def retouched : Session :=
  (start .standard .none "C4 q Z9 q D4 w").run retouch

theorem retouched_reads_as_text :
    (∀ op ∈ retouch, op.Writable) ∧
      retouched.text = "E4 w R h" ∧
      (parse .none retouched.text).document.isSome = true ∧
      retouched.output.diagnostics = (parse .none retouched.text).diagnostics ∧
      retouched.output.warnings = (parse .none retouched.text).warnings ∧
      retouched.output.measureLines = (parse .none retouched.text).measureLines := by
  have hops : ∀ op ∈ retouch, op.Writable := by
    unfold retouch
    simp only [List.forall_mem_cons, List.not_mem_nil, false_implies, implies_true, and_true]
    exact ⟨⟨1, rfl⟩, trivial, trivial⟩
  have hsome : retouched.document?.isSome = true := by decide
  obtain ⟨hdocument, -, hdiagnostics, hwarnings, hlines, -⟩ :=
    run_reads_as_text .standard .none .none "C4 q Z9 q D4 w" retouch hops
  exact ⟨hops, by decide, hdocument.symm.trans hsome, hdiagnostics, hwarnings, hlines⟩

end Session

end TextScore

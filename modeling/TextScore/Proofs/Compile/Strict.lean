import Mathlib
import TextScore.Compile
import TextScore.Proofs.Notation.Loss

/-!
# Strict — the ways to compile a text agree

A text is read once, and each way to compile it looks at the same reading.  Compiling strictly and
the strict view of a reading ask that nothing was reported, compiling asks for a document.  Where
there is no document something was reported, so whatever is accepted strictly is accepted otherwise
too, and whatever is refused is refused with the first diagnostic.
-/

namespace TextScore

open Notation (parse)

/-! ## 1. Readings -/

namespace ParseOutput

variable {output : ParseOutput}

theorem firstError?_eq_none_iff : output.firstError? = none ↔ output.diagnostics = [] := by
  unfold firstError?
  rw [Option.map_eq_none_iff, List.head?_eq_none_iff]

/-- A text without a document fails with the error that the strict view gives. -/
theorem missingDocument_eq (output : ParseOutput) :
    Compile.missingDocument output =
      output.firstError?.getD (.parse 1 none noValidNotesMessage) := by
  unfold Compile.missingDocument firstError?
  cases output.diagnostics <;> rfl

theorem strict_eq_ok_iff {doc : Document} :
    output.strict = .ok doc ↔ output.diagnostics = [] ∧ output.document = some doc := by
  rw [← firstError?_eq_none_iff]
  unfold strict
  split <;> simp_all

end ParseOutput

section

variable {options : ParseOptions} {text : String} {e : ScoreError}

/-- A text without a document has an error to tell. -/
theorem Notation.firstError?_ne_none (h : (parse options text).document = none) :
    (parse options text).firstError? ≠ none := by
  rw [ne_eq, ParseOutput.firstError?_eq_none_iff]
  intro hclean
  obtain ⟨doc, hdoc, -⟩ := exists_document_of_no_diagnostics hclean
  cases h.symm.trans hdoc

theorem Notation.strict_eq_error_iff :
    (parse options text).strict = .error e ↔ (parse options text).firstError? = some e := by
  have htold : (parse options text).document = none → (parse options text).firstError? ≠ none :=
    Notation.firstError?_ne_none
  unfold ParseOutput.strict
  split
  next error herror => rw [herror, Except.error.injEq, Option.some.injEq]
  next hnone hdoc => rw [hnone]; exact iff_of_false nofun nofun
  next hnone hdoc =>
    -- neither a document nor an error: a reading never ends like this
    exact absurd hnone (htold hdoc)

/-! ## 2. Ways to compile -/

variable {container : Float} {c : Compiled}

/-- However it is laid out, a reading fails if it has no document, and with its own error. -/
theorem Compile.finish_eq_error_iff {style : StaffStyle Float} :
    finish style container (parse options text) = .error e ↔
      (parse options text).document = none ∧ (parse options text).firstError? = some e := by
  have htold : (parse options text).document = none → (parse options text).firstError? ≠ none :=
    Notation.firstError?_ne_none
  unfold finish
  split
  next hdoc =>
    -- the error that stands in for a missing diagnostic drops out
    obtain ⟨error, herror⟩ := Option.ne_none_iff_exists'.mp (htold hdoc)
    rw [hdoc, ParseOutput.missingDocument_eq, herror, Option.getD_some, Except.error.injEq,
      Option.some.injEq]
    exact (and_iff_right rfl).symm
  next doc hdoc => rw [hdoc]; exact iff_of_false nofun nofun

theorem compileStrict_eq_error_iff :
    compileStrict options container text = .error e ↔ (parse options text).firstError? = some e := by
  unfold compileStrict
  simp only
  split
  next error herror => rw [herror, Except.error.injEq, Option.some.injEq]
  next hnone =>
    -- a reading with nothing to tell has a document
    rw [Compile.finish_eq_error_iff, hnone]
    exact iff_of_false (fun h => nomatch h.2) nofun

theorem compileStrict_eq_ok_iff :
    compileStrict options container text = .ok c ↔
      (parse options text).diagnostics = [] ∧ compile options container text = .ok c := by
  rw [← ParseOutput.firstError?_eq_none_iff]
  unfold compileStrict compile
  simp only
  split
  next error herror => rw [herror]; exact iff_of_false nofun fun h => nomatch h.1
  next hnone => exact (and_iff_right hnone).symm

theorem exists_compile {doc : Document} (hdoc : (parse options text).document = some doc) :
    ∃ c, compile options container text = .ok c := by
  unfold compile Compile.finish
  rw [hdoc]
  exact ⟨_, rfl⟩

theorem document_of_compile (h : compile options container text = .ok c) :
    (parse options text).document = some c.document := by
  unfold compile Compile.finish at h
  split at h
  next => cases h
  next doc hdoc =>
    cases h
    exact hdoc

end

/-! ## 3. All of them together -/

/-- The ways to compile a text and the strict view of its reading agree on what they accept, on what
it is compiled to, and on the error of what they refuse. -/
structure EntryPointsAgree (options : ParseOptions) (container : Float) (text : String) : Prop where
  compileStrict_succeeds_iff : (∃ c, compileStrict options container text = .ok c) ↔
    (parse options text).diagnostics = []
  strict_succeeds_iff : (∃ doc, (parse options text).strict = .ok doc) ↔
    (parse options text).diagnostics = []
  accepted : ∀ c, compileStrict options container text = .ok c →
    compile options container text = .ok c ∧ (parse options text).strict = .ok c.document
  refused : ∀ e, compileStrict options container text = .error e ↔
    (parse options text).strict = .error e
  compile_fails_iff : (∃ e, compile options container text = .error e) ↔
    (parse options text).document = none
  compile_refused : ∀ e, compile options container text = .error e →
    (parse options text).strict = .error e
  /-- With these settings in a configuration, the same texts are refused with the same errors. -/
  configured : ∀ config : Config, config.parseOptions = options → ∀ e,
    compileWith config container text = .error e ↔ compile options container text = .error e
  /-- Every error is a diagnostic, the first one; none is made up for want of any. -/
  told : ∀ e, (parse options text).strict = .error e →
    ∃ d ∈ (parse options text).diagnostics.head?, e = .parse d.line d.column d.message
  missing_told : (parse options text).document = none → (parse options text).diagnostics ≠ []

/-- Whatever text is compiled, and with whatever settings, it is accepted or refused alike: strictly
if something was reported of it, and else if nothing of it could be read. -/
theorem entry_points_agree (options : ParseOptions) (container : Float) (text : String) :
    EntryPointsAgree options container text where
  compileStrict_succeeds_iff := by
    simp only [compileStrict_eq_ok_iff, exists_and_left]
    -- a text of which nothing is reported has a document, and compiling asks for no more
    refine and_iff_left_of_imp fun hclean => ?_
    obtain ⟨doc, hdoc, -⟩ := Notation.exists_document_of_no_diagnostics hclean
    exact exists_compile hdoc
  strict_succeeds_iff := by
    simp only [ParseOutput.strict_eq_ok_iff, exists_and_left]
    refine and_iff_left_of_imp fun hclean => ?_
    obtain ⟨doc, hdoc, -⟩ := Notation.exists_document_of_no_diagnostics hclean
    exact ⟨doc, hdoc⟩
  accepted c hc := by
    obtain ⟨hclean, hcompile⟩ := compileStrict_eq_ok_iff.mp hc
    exact ⟨hcompile, ParseOutput.strict_eq_ok_iff.mpr ⟨hclean, document_of_compile hcompile⟩⟩
  refused e := by rw [compileStrict_eq_error_iff, Notation.strict_eq_error_iff]
  compile_fails_iff := by
    unfold compile
    simp only [Compile.finish_eq_error_iff, exists_and_left]
    refine and_iff_left_of_imp fun hdoc => ?_
    exact Option.ne_none_iff_exists'.mp (Notation.firstError?_ne_none hdoc)
  compile_refused e he := by
    rw [Notation.strict_eq_error_iff]
    exact (Compile.finish_eq_error_iff.mp he).2
  configured config hconfig e := by
    unfold compileWith compile
    rw [hconfig, Compile.finish_eq_error_iff, Compile.finish_eq_error_iff]
  told e he := by
    rw [Notation.strict_eq_error_iff] at he
    obtain ⟨d, hd, rfl⟩ := Option.map_eq_some_iff.mp he
    exact ⟨d, hd, rfl⟩
  missing_told hdoc := by
    rw [ne_eq, ← ParseOutput.firstError?_eq_none_iff]
    exact Notation.firstError?_ne_none hdoc

end TextScore

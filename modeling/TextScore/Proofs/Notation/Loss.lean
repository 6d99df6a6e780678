import Mathlib
import TextScore.Proofs.Notation.Account
import TextScore.Proofs.Notation.RoundTrip

/-!
# Loss — what a text without diagnostics can still lose

When nothing is reported, every pair of every line is a note.  A line is lost then only if it has no
pair at all: it is a signature, a bar, and nothing behind the bar.  Such a line is reported when the
text holds nothing else, and passes in silence beside a line with notes.
-/

namespace TextScore.Notation

open TextScore.Text

/-! ## 1. Bodies -/

/-- What follows the first bar of a line; all of a line without bars. -/
def bodyOf (line : List Char) : List Char :=
  match splitAtFirst? '|' line with
  | some (_, behind) => behind
  | none => line

/-- A line that is a signature, a bar and nothing more. -/
def Bare (line : List Char) : Prop :=
  ∃ before body ts, Divides line (some before) body ∧ WritesSignature before ts ∧
    allBlank body = true

theorem divides_bodyOf {line body : List Char} {before : Option (List Char)}
    (h : Divides line before body) : bodyOf line = body := by
  unfold bodyOf
  cases before with
  | none =>
    obtain ⟨hsplit, rfl⟩ := divides_none_iff.mp h
    rw [hsplit]
  | some before => rw [divides_some_iff.mp h]

theorem bodyOf_of_bare {line : List Char} (h : Bare line) : words (bodyOf line) = [] := by
  obtain ⟨before, body, ts, hdivides, -, hblank⟩ := h
  rw [divides_bodyOf hdivides]
  exact (words_eq_nil_iff body).mpr hblank

/-! ## 2. Lines without faults -/

theorem length_notes_of_pairFaults {a : LineAccount} (h : a.pairFaults = []) :
    a.notes.length = a.pairs.length := by
  unfold LineAccount.pairFaults at h
  unfold LineAccount.notes
  -- an entry that is no note would be a fault
  rw [List.length_filterMap_eq_countP, List.countP_eq_length]
  intro entry hentry
  cases entry with
  | ok note => rfl
  | error fault =>
    have := List.filterMap_eq_nil_iff.mp h (.error fault) hentry
    cases this

theorem even_of_not_dangling {ws : List (List Char)} (h : AccountsDangling ws none) :
    ws.length % 2 = 0 := by
  cases h with
  | even heven => exact heven

theorem writes_of_accountsSignature {before : List Char} {ts : TimeSignature}
    (h : AccountsSignature (some before) ts none) : WritesSignature before ts := by
  cases h with
  | written hwrites => exact hwrites

theorem faults_eq_nil_iff (a : LineAccount) :
    a.faults = [] ↔ a.signatureFault = none ∧ a.danglingFault = none ∧ a.pairFaults = [] := by
  unfold LineAccount.faults
  rw [List.append_eq_nil_iff, List.append_eq_nil_iff, Option.toList_eq_nil_iff,
    Option.toList_eq_nil_iff]

/-- A line without faults has a note for each two words of its body. -/
theorem length_notes_of_no_faults {line : SourceLine} {a : LineAccount} (ha : Accounts line a)
    (h : a.faults = []) : 2 * a.notes.length = (words (bodyOf line.chars)).length := by
  obtain ⟨-, hdivides, -, hdangling, hpairs⟩ := ha
  obtain ⟨-, hnone, hfaults⟩ := (faults_eq_nil_iff a).mp h
  rw [hnone] at hdangling
  have heven := even_of_not_dangling hdangling
  rw [length_notes_of_pairFaults hfaults, hpairs.length, divides_bodyOf hdivides]
  omega

/-- A line without faults and without words is blank or bare. -/
theorem bare_of_no_faults {line : SourceLine} {a : LineAccount} (ha : Accounts line a)
    (h : a.faults = []) (hcontent : allBlank line.chars = false)
    (hwords : words (bodyOf line.chars) = []) : Bare line.chars := by
  obtain ⟨-, hdivides, hsignature, -, -⟩ := ha
  rename_i before body
  rw [divides_bodyOf hdivides] at hwords
  have hblank : allBlank body = true := (words_eq_nil_iff body).mp hwords
  rw [((faults_eq_nil_iff a).mp h).1] at hsignature
  cases before with
  | none =>
    obtain ⟨-, rfl⟩ := divides_none_iff.mp hdivides
    rw [hblank] at hcontent
    cases hcontent
  | some before =>
    exact ⟨before, body, _, hdivides, writes_of_accountsSignature hsignature, hblank⟩

/-! ## 3. Texts without diagnostics -/

/-- The lines that have a word behind their signature. -/
def wordyLines (text : String) : List SourceLine :=
  (contentLines text.toList).filter fun line => words (bodyOf line.chars) ≠ []

/-- Each of these lines is a measure that holds all pairs of the line, and the measures are printed
on lines of their own. -/
structure Keeps (ls : List SourceLine) (output : ParseOutput) : Prop where
  measureLines : output.measureLines = ls.map (·.number)
  document : ∃ doc, output.document = some doc ∧
    doc.measures.map (fun m => 2 * m.notes.length) =
      ls.map (fun line => (words (bodyOf line.chars)).length) ∧
    (contentLines (print doc).toList).map (·.chars) = doc.measures.map measureChars

section

variable {σ : Type} [IdSource σ] {ids : σ} {options : ParseOptions} {text : String}

theorem lineFaults_of_no_diagnostics (h : (parseFrom ids options text).1.diagnostics = []) :
    lineFaults text = [] ∧ (allBlank text.toList = true ∨ outline text ≠ []) := by
  rw [parseFrom_diagnostics] at h
  split at h
  · cases h
  next hcond =>
    refine ⟨h, ?_⟩
    by_contra hno
    rw [not_or, Bool.not_eq_true, not_not] at hno
    exact hcond ⟨hno.1, hno.2, h⟩

theorem exists_document_of_no_diagnostics (h : (parseFrom ids options text).1.diagnostics = []) :
    ∃ doc, (parseFrom ids options text).1.document = some doc ∧
      doc.content = (outline text).map Draft.content := by
  have hdocument := parseFrom_document ids options text
  rw [if_pos (lineFaults_of_no_diagnostics h).2] at hdocument
  exact Option.map_eq_some_iff.mp hdocument

theorem outline_eq_wordyLines (h : lineFaults text = []) :
    outline text = (wordyLines text).map fun line => (accountOf line).draft := by
  have hfaults := (lineFaults_eq_nil_iff_accounts text).mp h
  rw [outline_eq_accounts]
  unfold wordyLines accountsOf
  rw [List.filter_map, List.map_map]
  -- half the number of words is the number of notes, so one is zero when the other is
  have hfilter : (contentLines text.toList).filter
      ((fun a : LineAccount => decide (a.notes ≠ [])) ∘ accountOf) =
      (contentLines text.toList).filter fun line => words (bodyOf line.chars) ≠ [] := by
    apply List.filter_congr
    intro line hline
    have hnone : (accountOf line).faults = [] := hfaults _ (List.mem_map_of_mem hline)
    have hlength := length_notes_of_no_faults (accounts_iff.mpr rfl) hnone
    have hiff : (accountOf line).notes = [] ↔ words (bodyOf line.chars) = [] := by
      rw [← List.length_eq_zero_iff, ← List.length_eq_zero_iff]
      omega
    rw [Function.comp_apply, decide_eq_decide, ne_eq, ne_eq, hiff]
  rw [hfilter]
  rfl

theorem keeps_wordyLines (h : (parseFrom ids options text).1.diagnostics = []) :
    Keeps (wordyLines text) (parseFrom ids options text).1 := by
  have hfaults := (lineFaults_of_no_diagnostics h).1
  have houtline := outline_eq_wordyLines hfaults
  constructor
  · rw [parseFrom_measureLines, houtline, List.map_map]
    apply List.map_congr_left
    intro line _
    obtain ⟨hline, -⟩ := accounts_iff.mpr (rfl : accountOf line = accountOf line)
    exact hline
  · obtain ⟨doc, hdoc, hcontent⟩ := exists_document_of_no_diagnostics h
    refine ⟨doc, hdoc, ?_, map_chars_contentLines_print (legible_of_parseFrom hdoc)⟩
    have hnotes : doc.measures.map (fun m => 2 * m.notes.length) =
        doc.content.map fun content => 2 * content.2.length := by
      unfold Document.content
      rw [List.map_map]
      apply List.map_congr_left
      intro m _
      rw [Function.comp_apply, Measure.content, List.length_map]
    rw [hnotes, hcontent, houtline, List.map_map, List.map_map]
    apply List.map_congr_left
    intro line hline
    have hmem : accountOf line ∈ accountsOf text :=
      List.mem_map_of_mem (List.mem_of_mem_filter hline)
    exact length_notes_of_no_faults (accounts_iff.mpr rfl)
      ((lineFaults_eq_nil_iff_accounts text).mp hfaults _ hmem)

/-- When nothing is reported, the lines with words are kept, and all lines are exactly if none of
them is bare. -/
theorem keeps_contentLines_iff (h : (parseFrom ids options text).1.diagnostics = []) :
    Keeps (wordyLines text) (parseFrom ids options text).1 ∧
      (Keeps (contentLines text.toList) (parseFrom ids options text).1 ↔
        ∀ line ∈ contentLines text.toList, ¬ Bare line.chars) := by
  have hkeeps := keeps_wordyLines h
  have hfaults := (lineFaults_eq_nil_iff_accounts text).mp (lineFaults_of_no_diagnostics h).1
  refine ⟨hkeeps, ?_, ?_⟩
  · intro hall line hline hbare
    -- both lists have the length of the measure lines, so nothing was filtered out
    have hlength : (wordyLines text).length = (contentLines text.toList).length := by
      have hnumbers := congrArg List.length (hkeeps.measureLines.symm.trans hall.measureLines)
      rwa [List.length_map, List.length_map] at hnumbers
    have hwordy := List.length_filter_eq_length_iff.mp hlength line hline
    exact of_decide_eq_true hwordy (bodyOf_of_bare hbare)
  · intro hnone
    -- a line without words would be bare, as it is neither blank nor faulty
    have hself : wordyLines text = contentLines text.toList := by
      apply List.filter_eq_self.mpr
      intro line hline
      apply decide_eq_true
      intro hwords
      have hcontent : allBlank line.chars = false := by
        simpa using (List.mem_filter.mp hline).2
      exact hnone line hline (bare_of_no_faults (accounts_iff.mpr rfl)
        (hfaults _ (List.mem_map_of_mem hline)) hcontent hwords)
    rwa [hself] at hkeeps

/-- A bare line in front of a measure is lost without a word. -/
theorem bare_line_is_lost :
    (parse .none "3/4 |\nC4 w").diagnostics = [] ∧
      (contentLines "3/4 |\nC4 w".toList).map (·.number) = [1, 2] ∧
      (parse .none "3/4 |\nC4 w").measureLines = [2] ∧
      ¬ Keeps (contentLines "3/4 |\nC4 w".toList) (parse .none "3/4 |\nC4 w") := by
  have hclean : (parseFrom IdSupply.fresh .none "3/4 |\nC4 w").1.diagnostics = [] := by decide
  obtain ⟨-, hiff⟩ := keeps_contentLines_iff hclean
  have hdivides : Divides "3/4 |".toList (some "3/4 ".toList) [] :=
    divides_some_iff.mpr (by decide)
  have hwrites : WritesSignature "3/4 ".toList ⟨3, 4⟩ := readSignature?_eq_some_iff.mp (by decide)
  have hbare : Bare "3/4 |".toList := ⟨_, _, _, hdivides, hwrites, rfl⟩
  have hline : (⟨1, "3/4 |".toList⟩ : SourceLine) ∈ contentLines "3/4 |\nC4 w".toList := by decide
  exact ⟨hclean, by decide, by decide, fun hall => hiff.mp hall _ hline hbare⟩

end

end TextScore.Notation

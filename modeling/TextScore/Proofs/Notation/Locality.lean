import Mathlib
import TextScore.Proofs.Notation.Canonical
import TextScore.Proofs.Notation.Message

/-!
# Locality — a text is read line by line

Nothing that is read on one line has a say in what is read on another.  When one text is written under
another, their measures, faults and warnings come one after the other: only the lines are counted on,
and the measures are numbered on in the warnings.  The one remark that belongs to no line, that a text
has no notes at all, is left out of account.
-/

namespace TextScore

open Text

/-! ## 1. Lines under lines -/

namespace Text

theorem length_lines (text : List Char) : (lines text).length = text.count '\n' + 1 := by
  have hsplit : (text.splitOn '\n').length = text.count '\n' + 1 := by
    induction text with
    | nil => rfl
    | cons c rest ih =>
      rw [List.splitOn_eq_splitOnP] at ih ⊢
      rw [List.splitOnP_cons_eq_if_modifyHead]
      by_cases hc : c = '\n'
      · rw [if_pos (by simp [hc]), List.length_cons, ih, hc, List.count_cons_self]
      · rw [if_neg (by simp [hc]), List.length_modifyHead, ih, List.count_cons_of_ne hc]
  rw [lines, List.length_map, hsplit]

theorem numberFrom_add (first count : ℕ) (ls : List (List Char)) :
    numberFrom (first + count) ls =
      (numberFrom first ls).map fun line => { line with number := line.number + count } := by
  induction ls generalizing first with
  | nil => rfl
  | cons l rest ih =>
    rw [numberFrom, numberFrom, List.map_cons, ← ih, Nat.add_right_comm]

theorem contentLines_append (a b : List Char) :
    contentLines (a ++ '\n' :: b) = contentLines a ++
      (contentLines b).map fun line => { line with number := line.number + (a.count '\n' + 1) } := by
  unfold contentLines
  rw [lines_append, numberFrom_append, numberFrom_add, length_lines, List.filter_append,
    List.filter_map]
  rfl

end Text

namespace Notation

theorem readings_append (a b : List Char) :
    readings (a ++ '\n' :: b) = readings a ++
      (readings b).map fun r => { r with line := r.line + (a.count '\n' + 1) } := by
  unfold readings
  rw [contentLines_append, List.map_append, List.map_map, List.map_map]
  rfl

/-- The same draft, `count` lines further down. -/
def Draft.down (count : ℕ) (draft : Draft) : Draft :=
  { draft with line := draft.line + count }

end Notation

/-- The same diagnostic, `count` lines further down. -/
def Diagnostic.down (count : ℕ) (d : Diagnostic) : Diagnostic :=
  { d with line := d.line + count }

namespace Notation

section

variable (a b : String)

theorem toList_under : (a ++ "\n" ++ b).toList = a.toList ++ '\n' :: b.toList := by
  rw [String.toList_append, String.toList_append, List.append_assoc]
  rfl

theorem outline_append :
    outline (a ++ "\n" ++ b) =
      outline a ++ (outline b).map (Draft.down (a.toList.count '\n' + 1)) := by
  unfold outline drafts
  rw [toList_under, readings_append, List.filterMap_append, List.filterMap_map,
    List.map_filterMap]
  congr 1
  apply List.filterMap_congr
  intro r _
  rw [Function.comp_apply]
  unfold NumberedReading.draft?
  simp only
  split <;> rfl

theorem lineFaults_append :
    lineFaults (a ++ "\n" ++ b) =
      lineFaults a ++ (lineFaults b).map (Diagnostic.down (a.toList.count '\n' + 1)) := by
  unfold lineFaults
  rw [toList_under, readings_append, List.flatMap_append, List.flatMap_map, List.map_flatMap]
  congr 2
  funext r
  unfold NumberedReading.diagnostics
  rw [List.map_map]
  rfl

end

/-! ## 2. Measures behind measures -/

theorem warningsFrom_append (first : ℕ) (ds later : List Draft) :
    warningsFrom first (ds ++ later) =
      warningsFrom first ds ++ warningsFrom (first + ds.length) later := by
  induction ds generalizing first with
  | nil => rfl
  | cons draft rest ih =>
    rw [List.cons_append, warningsFrom, warningsFrom, ih, List.append_assoc, List.length_cons,
      Nat.add_right_comm, Nat.add_assoc]

end Notation

/-- The same warning on a measure that comes `measures` later, `lines` further down. -/
def Diagnostic.behind (measures lines : ℕ) (w : Diagnostic) : Diagnostic :=
  { w with line := w.line + lines, message := Notation.raiseNumber measures w.message }

namespace Notation

theorem behind_atPlace_misfit (measures lines : ℕ) (way : Misfit) (measure : ℕ) (beats : Float)
    (signature : TimeSignature) (line : ℕ) :
    ((Fault.misfit way measure beats signature).atPlace line none).behind measures lines =
      (Fault.misfit way (measure + measures) beats signature).atPlace (line + lines) none := by
  unfold Fault.atPlace Diagnostic.behind
  simp only
  rw [raiseNumber_message_misfit]
  cases way <;> rfl

theorem warning?_behind (measures lines number : ℕ) (draft : Draft) :
    warning? (number + measures) (draft.down lines) =
      (warning? number draft).map (Diagnostic.behind measures lines) := by
  unfold warning? misfit? Draft.down
  simp only
  -- whether a measure fits is a matter of its notes alone
  split
  · rfl
  · exact congrArg some (behind_atPlace_misfit _ _ _ _ _ _ _).symm

theorem warningsFrom_behind (measures lines first : ℕ) (ds : List Draft) :
    warningsFrom (first + measures) (ds.map (Draft.down lines)) =
      (warningsFrom first ds).map (Diagnostic.behind measures lines) := by
  induction ds generalizing first with
  | nil => rfl
  | cons draft rest ih =>
    rw [List.map_cons, warningsFrom, warningsFrom, List.map_append, warning?_behind,
      Nat.add_right_comm, ih, Option.toList_map]

end Notation

/-- The measures of the output's document, if it has one. -/
def ParseOutput.content (output : ParseOutput) : List (TimeSignature × List (NoteKind × Duration)) :=
  output.document.elim [] Document.content

/-- All diagnostics but the one on a text without notes. -/
def ParseOutput.losses (output : ParseOutput) : List Diagnostic :=
  output.diagnostics.filter (·.kind ≠ .noValidNotes)

namespace Notation

section

variable {σ : Type} [IdSource σ]

theorem content_parseFrom (ids : σ) (options : ParseOptions) (text : String) :
    (parseFrom ids options text).1.content = (outline text).map Draft.content := by
  have hdocument := parseFrom_document ids options text
  unfold ParseOutput.content
  cases hdoc : (parseFrom ids options text).1.document with
  | some doc => exact content_of_document ids options text hdoc
  | none =>
    rw [hdoc, Option.map_none] at hdocument
    split at hdocument
    · cases hdocument
    next hnone =>
      rw [not_or, not_not] at hnone
      rw [hnone.2]
      rfl

theorem losses_parseFrom (ids : σ) (options : ParseOptions) (text : String) :
    (parseFrom ids options text).1.losses = lineFaults text := by
  have hkept : (lineFaults text).filter (·.kind ≠ .noValidNotes) = lineFaults text := by
    apply List.filter_eq_self.mpr
    intro d hd
    have hkind := (exists_of_mem_lineFaults hd).2
    apply decide_eq_true
    intro h
    rw [h] at hkind
    exact hkind
  unfold ParseOutput.losses
  rw [parseFrom_diagnostics]
  split
  next hnothing =>
    rw [hnothing.2.2]
    rfl
  next => exact hkept

/-- A text under another is read as if it stood alone, but for the lines that are counted on and the
measures that are numbered on. -/
theorem parseFrom_is_line_local (ids first second : σ) (options : ParseOptions)
    (above below : String) :
    let whole := (parseFrom ids options (above ++ "\n" ++ below)).1
    let upper := (parseFrom first options above).1
    let lower := (parseFrom second options below).1
    let lines := above.toList.count '\n' + 1
    whole.content = upper.content ++ lower.content ∧
      whole.losses = upper.losses ++ lower.losses.map (Diagnostic.down lines) ∧
      whole.measureLines = upper.measureLines ++ lower.measureLines.map (· + lines) ∧
      whole.warnings =
        upper.warnings ++ lower.warnings.map (Diagnostic.behind upper.content.length lines) := by
  intro whole upper lower lines
  have hcontent : upper.content = (outline above).map Draft.content :=
    content_parseFrom first options above
  have houtline : outline (above ++ "\n" ++ below) =
      outline above ++ (outline below).map (Draft.down lines) := outline_append above below
  refine ⟨?_, ?_, ?_, ?_⟩
  · rw [hcontent, content_parseFrom, content_parseFrom, houtline, List.map_append, List.map_map]
    rfl
  · rw [losses_parseFrom, losses_parseFrom, losses_parseFrom]
    exact lineFaults_append above below
  · rw [parseFrom_measureLines, parseFrom_measureLines, parseFrom_measureLines, houtline,
      List.map_append, List.map_map, List.map_map]
    rfl
  · rw [parseFrom_warnings, parseFrom_warnings, parseFrom_warnings, houtline,
      warningsFrom_append, hcontent, List.length_map, warningsFrom_behind]

end

end Notation

end TextScore

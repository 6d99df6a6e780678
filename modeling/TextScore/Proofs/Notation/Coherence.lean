import Mathlib
import TextScore.Proofs.Notation.Legible
import TextScore.Proofs.Notation.Message
import TextScore.Proofs.Order

/-!
# Coherence — the parts of a parse speak of the same lines

Measures, their lines, the warnings and the diagnostics of a parse are gathered side by side, and
all of them follow the lines of the text.  Measures and warnings each stand on some of the lines that
are not blank, a line at most once; diagnostics stand on such lines too, as many on a line as it has
faults.  So all of them can be told by line, and each warning belongs to the measure of its line.
-/

namespace TextScore.Notation

open TextScore.Text

/-! ## 1. Lines by their numbers -/

/-- A line of this number, counted from 1, is in the text and is not blank. -/
def HasContentAt (text : String) (number : ℕ) : Prop :=
  ∃ i line, number = i + 1 ∧ (lines text.toList)[i]? = some line ∧ allBlank line = false

theorem getElem?_of_mem_numberFrom {first : ℕ} {ls : List (List Char)} {line : SourceLine}
    (h : line ∈ numberFrom first ls) : ∃ i, line.number = first + i ∧ ls[i]? = some line.chars := by
  induction ls generalizing first with
  | nil => cases h
  | cons l rest ih =>
    rw [numberFrom] at h
    rcases List.mem_cons.mp h with rfl | h
    · exact ⟨0, rfl, rfl⟩
    · obtain ⟨i, hnumber, hline⟩ := ih h
      exact ⟨i + 1, by omega, hline⟩

theorem mem_numberFrom {first i : ℕ} {ls : List (List Char)} {chars : List Char}
    (h : ls[i]? = some chars) : ⟨first + i, chars⟩ ∈ numberFrom first ls := by
  induction ls generalizing first i with
  | nil => cases h
  | cons l rest ih =>
    rw [numberFrom]
    cases i with
    | zero =>
      obtain rfl : l = chars := Option.some.inj h
      exact List.mem_cons_self
    | succ i =>
      have hmem : ⟨first + 1 + i, chars⟩ ∈ numberFrom (first + 1) rest := ih h
      rw [show first + 1 + i = first + (i + 1) by omega] at hmem
      exact List.mem_cons_of_mem _ hmem

theorem hasContentAt_of_mem {text : String} {line : SourceLine}
    (h : line ∈ contentLines text.toList) : HasContentAt text line.number := by
  obtain ⟨hmem, hcontent⟩ := List.mem_filter.mp h
  obtain ⟨i, hnumber, hline⟩ := getElem?_of_mem_numberFrom hmem
  exact ⟨i, line.chars, by omega, hline, by simpa using hcontent⟩

theorem contentLines_increasing (text : List Char) :
    (contentLines text).Pairwise fun a b => a.number < b.number := by
  have hall : (numberFrom 1 (lines text)).Pairwise fun a b => a.number < b.number := by
    rw [← List.pairwise_map (f := SourceLine.number) (R := (· < ·)), map_number_numberFrom]
    exact List.pairwise_lt_range'
  exact hall.sublist List.filter_sublist

/-! ## 2. Measures -/

theorem map_line_outline_sublist (text : String) :
    ((outline text).map (·.line)).Sublist ((contentLines text.toList).map (·.number)) := by
  show ((((contentLines text.toList).map readNumbered).filterMap NumberedReading.draft?).map
    (·.line)).Sublist _
  induction contentLines text.toList with
  | nil => exact .slnil
  | cons line rest ih =>
    rw [List.map_cons, List.filterMap_cons, List.map_cons]
    -- a line without notes is passed over, and any other has one draft
    cases hdraft : (readNumbered line).draft? with
    | none => exact ih.cons _
    | some draft =>
      have hline : draft.line = line.number := line_of_mem_draft? hdraft
      rw [List.map_cons, hline]
      exact ih.cons_cons _

theorem outline_increasing (text : String) :
    ((outline text).map (·.line)).Pairwise (· < ·) := by
  have hlines := List.pairwise_map.mpr (contentLines_increasing text.toList)
  exact hlines.sublist (map_line_outline_sublist text)

/-- Nothing is drafted exactly when no line has a note. -/
theorem outline_eq_nil_iff_notes (text : String) :
    outline text = [] ↔ ∀ line ∈ contentLines text.toList, (readLine line.chars).notes = [] := by
  unfold outline drafts readings
  rw [List.filterMap_eq_nil_iff, List.forall_mem_map]
  apply forall₂_congr
  intro line _
  unfold NumberedReading.draft?
  simp only [List.isEmpty_iff]
  split <;> simp_all

/-! ## 3. Warnings -/

theorem misfit_of_warning? {number : ℕ} {draft : Draft} {w : Diagnostic}
    (h : warning? number draft = some w) :
    ∃ way beats, w = (Fault.misfit way number beats draft.signature).atPlace draft.line none := by
  unfold warning? misfit? at h
  obtain ⟨fault, hfault, rfl⟩ := Option.map_eq_some_iff.mp h
  simp only at hfault
  split at hfault
  · cases hfault
  · cases hfault
    exact ⟨_, _, rfl⟩

/-- A warning is given on a measure under its number. -/
theorem exists_of_mem_warningsFrom {first : ℕ} {ds : List Draft} {w : Diagnostic}
    (h : w ∈ warningsFrom first ds) :
    ∃ i draft, ds[i]? = some draft ∧ warning? (first + i) draft = some w := by
  induction ds generalizing first with
  | nil => cases h
  | cons draft rest ih =>
    rw [warningsFrom] at h
    rcases List.mem_append.mp h with h | h
    · exact ⟨0, draft, rfl, Option.mem_toList.mp h⟩
    · obtain ⟨i, other, hother, hw⟩ := ih h
      exact ⟨i + 1, other, hother, by rwa [show first + (i + 1) = first + 1 + i by omega]⟩

theorem map_line_warningsFrom_sublist (first : ℕ) (ds : List Draft) :
    ((warningsFrom first ds).map (·.line)).Sublist (ds.map (·.line)) := by
  induction ds generalizing first with
  | nil => exact .slnil
  | cons draft rest ih =>
    rw [warningsFrom, List.map_append, List.map_cons]
    cases hw : warning? first draft with
    | none => exact (ih (first + 1)).cons _
    | some w =>
      obtain ⟨way, beats, rfl⟩ := misfit_of_warning? hw
      exact (ih (first + 1)).cons_cons _

/-! ## 4. Diagnostics -/

/-- What is found wrong in a line: all kinds of faults but those of whole measures and texts. -/
def FoundInLine : DiagnosticKind → Prop
  | .overfull | .underfull | .noValidNotes => False
  | _ => True

section

variable {located : LocatedFault}

theorem kind_of_mem_readPrefix {before : List Char} (h : located ∈ (readPrefix before).2) :
    located.fault.kind = .malformedTimeSignature := by
  unfold readPrefix at h
  split at h
  · cases h
  · cases h
    rfl

theorem kind_of_mem_dangling? {toks : List Token} (h : located ∈ dangling? toks) :
    located.fault.kind = .danglingToken := by
  unfold dangling? at h
  split at h
  · cases h
  · obtain ⟨token, -, rfl⟩ := Option.map_eq_some_iff.mp h
    rfl

/-- Whichever half of a pair is bad, the fault is that of a pitch or of a duration. -/
theorem kind_of_mem_faultsOf {toks : List Token} (h : located ∈ faultsOf (readPairs toks)) :
    located.fault.kind = .invalidPitch ∨ located.fault.kind = .invalidDuration := by
  induction toks using readPairs.induct with
  | case1 symbol duration rest ih =>
    rw [readPairs] at h
    cases hpair : readPair symbol duration with
    | ok note =>
      rw [hpair] at h
      exact ih h
    | error fault =>
      rw [hpair, faultsOf_cons_error] at h
      rcases List.mem_cons.mp h with rfl | h
      · unfold readPair at hpair
        split at hpair <;> cases hpair
        · exact Or.inl rfl
        · exact Or.inl rfl
        · exact Or.inr rfl
      · exact ih h
  | case2 toks htoks =>
    rw [readPairs_of_no_pair htoks] at h
    cases h

theorem foundInLine_of_mem_faults {line : List Char} (h : located ∈ (readLine line).faults) :
    FoundInLine located.fault.kind := by
  have hbody : ∀ signature column body, located ∈ (readBody signature column body).faults →
      located ∈ signature.2 ∨ FoundInLine located.fault.kind := by
    intro signature column body hmem
    unfold readBody LineReading.faults at hmem
    rcases List.mem_append.mp hmem with hmem | hmem
    · exact Or.inl (Option.mem_toList.mp hmem)
    refine Or.inr ?_
    rcases List.mem_append.mp hmem with hmem | hmem
    · rw [kind_of_mem_dangling? (Option.mem_toList.mp hmem)]
      trivial
    · rcases kind_of_mem_faultsOf hmem with hkind | hkind <;> rw [hkind] <;> trivial
  unfold readLine at h
  split at h
  next before behind _ =>
    rcases hbody _ _ _ h with hmem | hfound
    · rw [kind_of_mem_readPrefix hmem]
      trivial
    · exact hfound
  next => exact (hbody _ _ _ h).elim (fun hmem => by cases hmem) id

end

/-- A fault of a line is reported on that line. -/
theorem exists_of_mem_lineFaults {text : String} {d : Diagnostic} (h : d ∈ lineFaults text) :
    HasContentAt text d.line ∧ FoundInLine d.kind := by
  unfold lineFaults readings at h
  rw [List.flatMap_map] at h
  obtain ⟨line, hline, h⟩ := List.mem_flatMap.mp h
  obtain ⟨located, hlocated, rfl⟩ := List.mem_map.mp h
  exact ⟨hasContentAt_of_mem hline, foundInLine_of_mem_faults hlocated⟩

theorem lineFaults_increasing (text : String) :
    (lineFaults text).Pairwise fun a b => a.line ≤ b.line := by
  unfold lineFaults readings
  rw [List.flatMap_map, List.pairwise_flatMap]
  have hline : ∀ (line : SourceLine), ∀ d ∈ (readNumbered line).diagnostics,
      d.line = line.number := by
    intro line d hd
    obtain ⟨located, -, rfl⟩ := List.mem_map.mp hd
    rfl
  constructor
  · intro line _
    apply List.pairwise_of_forall_mem_list
    intro a ha b hb
    rw [hline line a ha, hline line b hb]
  · refine (contentLines_increasing text.toList).imp ?_
    intro line later hlater a ha b hb
    rw [hline line a ha, hline later b hb]
    exact hlater.le

/-! ## 5. Messages -/

section

variable (output : ParseOutput)

theorem allMessages_perm : output.allMessages.Perm (output.diagnostics ++ output.warnings) :=
  List.mergeSort_perm _ _

/-- The order of messages is that of their lines. -/
theorem isLineOrder (a b c : Diagnostic) :
    (decide (a.line ≤ b.line) = true → decide (b.line ≤ c.line) = true →
      decide (a.line ≤ c.line) = true) ∧
    (decide (a.line ≤ b.line) || decide (b.line ≤ a.line)) = true := by
  simp only [decide_eq_true_eq, Bool.or_eq_true]
  omega

theorem allMessages_increasing : output.allMessages.Pairwise fun a b => a.line ≤ b.line := by
  have hsorted : output.allMessages.Pairwise fun a b => decide (a.line ≤ b.line) = true :=
    List.pairwise_mergeSort (fun a b c => (isLineOrder a b c).1) (fun a b => (isLineOrder a b a).2) _
  exact hsorted.imp of_decide_eq_true

theorem allMessages_on_line (number : ℕ) :
    output.allMessages.filter (fun d => d.line = number) =
      output.diagnostics.filter (fun d => d.line = number) ++
        output.warnings.filter fun d => d.line = number := by
  rw [← List.filter_append]
  apply filter_mergeSort_of_tied (fun a b c => (isLineOrder a b c).1)
    (fun a b => (isLineOrder a b a).2)
  intro a b ha hb
  rw [decide_eq_true_eq] at ha hb ⊢
  omega

end

/-! ## 6. All parts together -/

/-- The parts of an output speak of the same lines of its text and of the same measures. -/
structure Coherent (text : String) (output : ParseOutput) : Prop where
  /-- There is no document exactly when a text that is not blank has no line with a note. -/
  no_document : output.document = none ↔
    allBlank text.toList = false ∧
      ∀ line ∈ contentLines text.toList, (readLine line.chars).notes = []
  without_document : output.document = none →
    output.diagnostics ≠ [] ∧ output.warnings = [] ∧ output.measureLines = []
  measures : ∀ doc, output.document = some doc →
    output.measureLines.length = doc.measures.length ∧ ∀ m ∈ doc.measures, m.notes ≠ []
  measureLines_increasing : output.measureLines.Pairwise (· < ·)
  measureLines_content : ∀ number ∈ output.measureLines, HasContentAt text number
  warnings_increasing : output.warnings.Pairwise fun a b => a.line < b.line
  /-- A warning stands on the line of its measure, and its message calls that measure by its number
  in the document. -/
  warnings_name : ∀ w ∈ output.warnings, ∃ doc i m way beats, output.document = some doc ∧
    doc.measures[i]? = some m ∧ output.measureLines[i]? = some w.line ∧
    w = (Fault.misfit way (i + 1) beats m.signature).atPlace w.line none ∧
    Quotes w.kind (toString (i + 1)) w.message
  warnings_kind : ∀ w ∈ output.warnings, w.kind = .overfull ∨ w.kind = .underfull
  diagnostics_kind : ∀ d ∈ output.diagnostics, d.kind ≠ .overfull ∧ d.kind ≠ .underfull
  diagnostics_increasing : output.diagnostics.Pairwise fun a b => a.line ≤ b.line
  diagnostics_content : ∀ d ∈ output.diagnostics, HasContentAt text d.line
  noValidNotes_alone : ∀ d ∈ output.diagnostics, d.kind = .noValidNotes →
    output.diagnostics = [d] ∧ output.document = none
  messages_perm : output.allMessages.Perm (output.diagnostics ++ output.warnings)
  messages_increasing : output.allMessages.Pairwise fun a b => a.line ≤ b.line
  /-- The messages on a line are its diagnostics as they were reported, and then its warning. -/
  messages_on_line : ∀ number,
    output.allMessages.filter (fun d => d.line = number) =
      output.diagnostics.filter (fun d => d.line = number) ++
        output.warnings.filter fun d => d.line = number

section

variable {σ : Type} [IdSource σ] (ids : σ) (options : ParseOptions) (text : String)

theorem document_eq_none_iff_notes :
    (parseFrom ids options text).1.document = none ↔
      allBlank text.toList = false ∧
        ∀ line ∈ contentLines text.toList, (readLine line.chars).notes = [] := by
  rw [document_eq_none_iff_outline, outline_eq_nil_iff_notes]

/-- A diagnostic is a fault of a line, or the one diagnostic of a text that yields nothing. -/
theorem exists_of_mem_diagnostics {d : Diagnostic}
    (h : d ∈ (parseFrom ids options text).1.diagnostics) :
    HasContentAt text d.line ∧
      (FoundInLine d.kind ∨ d.kind = .noValidNotes ∧
        (parseFrom ids options text).1.diagnostics = [d] ∧
        (parseFrom ids options text).1.document = none) := by
  have hdiagnostics := parseFrom_diagnostics ids options text
  split at hdiagnostics
  next hnothing =>
    obtain ⟨hblank, ho, -⟩ := hnothing
    rw [hdiagnostics, List.mem_singleton] at h
    subst h
    refine ⟨?_, Or.inr ⟨rfl, hdiagnostics, ?_⟩⟩
    · -- a text that is not blank has a first line with content
      obtain ⟨line, rest, hlines⟩ : ∃ line rest, contentLines text.toList = line :: rest := by
        apply List.exists_cons_of_ne_nil
        rw [ne_eq, contentLines_eq_nil_iff, hblank]
        exact Bool.false_ne_true
      have hfirst : (noNotesDiagnostic (readings text.toList)).line = line.number := by
        unfold noNotesDiagnostic readings
        rw [hlines]
        rfl
      rw [hfirst]
      exact hasContentAt_of_mem (hlines ▸ List.mem_cons_self)
    · exact (document_eq_none_iff_outline ids options text).mpr ⟨hblank, ho⟩
  next =>
    rw [hdiagnostics] at h
    obtain ⟨hcontent, hkind⟩ := exists_of_mem_lineFaults h
    exact ⟨hcontent, Or.inl hkind⟩

theorem diagnostics_increasing :
    (parseFrom ids options text).1.diagnostics.Pairwise fun a b => a.line ≤ b.line := by
  rw [parseFrom_diagnostics]
  split
  · exact List.pairwise_singleton _ _
  · exact lineFaults_increasing text

/-- The measures of a document are the drafts of its text. -/
theorem getElem?_measures {doc : Document} (hdoc : (parseFrom ids options text).1.document = some doc)
    {i : ℕ} {draft : Draft} (hdraft : (outline text)[i]? = some draft) :
    ∃ m, doc.measures[i]? = some m ∧ m.signature = draft.signature := by
  have hi : doc.content[i]? = some draft.content := by
    rw [content_of_document ids options text hdoc, List.getElem?_map, hdraft, Option.map_some]
  rw [Document.content, List.getElem?_map] at hi
  obtain ⟨m, hm, hsame⟩ := Option.map_eq_some_iff.mp hi
  exact ⟨m, hm, congrArg Prod.fst hsame⟩

/-- Where there is a draft, there is a document that has it as a measure. -/
theorem exists_measure_of_draft {i : ℕ} {draft : Draft} (hdraft : (outline text)[i]? = some draft) :
    ∃ doc m, (parseFrom ids options text).1.document = some doc ∧ doc.measures[i]? = some m ∧
      m.signature = draft.signature := by
  obtain ⟨doc, hdoc⟩ : ∃ doc, (parseFrom ids options text).1.document = some doc := by
    apply Option.ne_none_iff_exists'.mp
    rw [ne_eq, document_eq_none_iff_outline]
    rintro ⟨-, ho⟩
    rw [ho] at hdraft
    cases hdraft
  obtain ⟨m, hm, hsignature⟩ := getElem?_measures ids options text hdoc hdraft
  exact ⟨doc, m, hdoc, hm, hsignature⟩

theorem exists_of_mem_warnings {w : Diagnostic}
    (h : w ∈ (parseFrom ids options text).1.warnings) :
    ∃ doc i m way beats, (parseFrom ids options text).1.document = some doc ∧
      doc.measures[i]? = some m ∧
      (parseFrom ids options text).1.measureLines[i]? = some w.line ∧
      w = (Fault.misfit way (i + 1) beats m.signature).atPlace w.line none := by
  rw [parseFrom_warnings] at h
  obtain ⟨i, draft, hdraft, hw⟩ := exists_of_mem_warningsFrom h
  obtain ⟨way, beats, rfl⟩ := misfit_of_warning? hw
  obtain ⟨doc, m, hdoc, hm, hsignature⟩ := exists_measure_of_draft ids options text hdraft
  refine ⟨doc, i, m, way, beats, hdoc, hm, ?_, ?_⟩
  · rw [parseFrom_measureLines, List.getElem?_map, hdraft]
    rfl
  · rw [hsignature, Nat.add_comm 1 i]
    rfl

/-- Whatever text is read, and under whatever names, the parts of what it reads as fit together. -/
theorem parseFrom_is_coherent : Coherent text (parseFrom ids options text).1 where
  no_document := document_eq_none_iff_notes ids options text
  without_document hnone := by
    obtain ⟨hblank, hnotes⟩ := (document_eq_none_iff_notes ids options text).mp hnone
    have ho : outline text = [] := (outline_eq_nil_iff_notes text).mpr hnotes
    rw [parseFrom_of_outline_eq_nil ids options text hblank ho]
    refine ⟨?_, rfl, rfl⟩
    show (if lineFaults text = [] then [noNotesDiagnostic (readings text.toList)]
      else lineFaults text) ≠ []
    split
    next => exact List.cons_ne_nil _ _
    next hfaults => exact hfaults
  measures doc hdoc := by
    refine ⟨?_, fun m hm => (legible_of_parseFrom hdoc m hm).1⟩
    have hlength := congrArg List.length (content_of_document ids options text hdoc)
    rw [Document.content, List.length_map, List.length_map] at hlength
    rw [parseFrom_measureLines, List.length_map, hlength]
  measureLines_increasing := by
    rw [parseFrom_measureLines]
    exact outline_increasing text
  measureLines_content number hnumber := by
    rw [parseFrom_measureLines] at hnumber
    obtain ⟨line, hline, rfl⟩ :=
      List.mem_map.mp ((map_line_outline_sublist text).subset hnumber)
    exact hasContentAt_of_mem hline
  warnings_increasing := by
    rw [parseFrom_warnings, ← List.pairwise_map (f := Diagnostic.line) (R := (· < ·))]
    exact (outline_increasing text).sublist (map_line_warningsFrom_sublist 1 (outline text))
  warnings_name w hw := by
    obtain ⟨doc, i, m, way, beats, hdoc, hm, hline, hmisfit⟩ :=
      exists_of_mem_warnings ids options text hw
    have hquotes : Quotes w.kind (toString (i + 1)) w.message := by
      rw [hmisfit]
      exact (Fault.misfit way (i + 1) beats m.signature).quotes_message
    exact ⟨doc, i, m, way, beats, hdoc, hm, hline, hmisfit, hquotes⟩
  warnings_kind w hw := by
    obtain ⟨doc, i, m, way, beats, -, -, -, hmisfit⟩ := exists_of_mem_warnings ids options text hw
    rw [hmisfit]
    match way with
    | .over => exact Or.inl rfl
    | .under => exact Or.inr rfl
  diagnostics_kind d hd := by
    obtain ⟨-, hkind | ⟨hkind, -⟩⟩ := exists_of_mem_diagnostics ids options text hd
    · constructor <;> intro h <;> rw [h] at hkind <;> exact hkind
    · rw [hkind]
      exact ⟨by decide, by decide⟩
  diagnostics_increasing := diagnostics_increasing ids options text
  diagnostics_content d hd := (exists_of_mem_diagnostics ids options text hd).1
  noValidNotes_alone d hd hkind := by
    obtain ⟨-, hfound | ⟨-, halone⟩⟩ := exists_of_mem_diagnostics ids options text hd
    · rw [hkind] at hfound
      exact hfound.elim
    · exact halone
  messages_perm := allMessages_perm _
  messages_increasing := allMessages_increasing _
  messages_on_line number := allMessages_on_line _ number

end

end TextScore.Notation

import Mathlib
import TextScore.Proofs.Notation.Printed

/-!
# RoundTrip — printing a document and reading it again

Each measure of a document is printed on a line of its own, and each line is read on its own.  So a
printed document reads as the same content exactly when each of its measures does, and then nothing
is reported and the measures stand on the lines 1, 2, 3 and so on.
-/

namespace TextScore.Notation

open TextScore.Text

/-! ## 1. The lines of a printed document -/

theorem toList_print (doc : Document) : (print doc).toList = documentChars doc := by
  unfold print
  rw [String.toList_ofList]

theorem lines_documentChars {doc : Document} (h : doc.measures ≠ []) :
    lines (documentChars doc) = doc.measures.map measureChars := by
  unfold documentChars
  apply lines_intercalate
  · simpa using h
  · rw [List.forall_mem_map]
    exact fun m _ => lineFeed_not_mem_measureChars m
  · rw [List.forall_mem_map]
    exact fun m _ hlast => carriageReturn_not_mem_measureChars m (List.mem_of_getLast? hlast)

theorem documentChars_eq_nil {doc : Document} (h : doc.measures = []) : documentChars doc = [] := by
  unfold documentChars
  rw [h]
  rfl

theorem map_content_outline_print (doc : Document) :
    (outline (print doc)).map Draft.content =
      doc.measures.filterMap fun m => lineContent? (measureChars m) := by
  rw [map_content_outline, toList_print]
  -- the empty text has one line, which is blank
  by_cases h : doc.measures = []
  · rw [documentChars_eq_nil h, h]
    rfl
  · rw [lines_documentChars h, List.filterMap_map]
    rfl

/-! ## 2. Legible documents -/

theorem legible_iff_map_content_outline (doc : Document) :
    doc.Legible ↔ (outline (print doc)).map Draft.content = doc.content := by
  rw [map_content_outline_print]
  unfold Document.content Document.Legible
  -- no measure can stand in for another: the two lists agree place by place
  rw [List.filterMap_eq_map_iff_forall_eq_some]
  exact forall₂_congr fun m _ => (lineContent?_measureChars_iff m).symm

/-- A document without measures is the only legible one that is printed as a blank text. -/
theorem allBlank_print_iff {doc : Document} (h : doc.Legible) :
    allBlank (print doc).toList = true ↔ doc.measures = [] := by
  constructor
  · intro hblank
    have hcontent := (legible_iff_map_content_outline doc).mp h
    rw [outline_of_allBlank hblank] at hcontent
    exact List.map_eq_nil_iff.mp hcontent.symm
  · intro hnil
    rw [toList_print, documentChars_eq_nil hnil]
    rfl

theorem lineFaults_print_eq_flatMap {doc : Document} (h : doc.measures ≠ []) :
    lineFaults (print doc) =
      (numberFrom 1 (doc.measures.map measureChars)).flatMap fun line =>
        (readNumbered line).diagnostics := by
  rw [lineFaults_eq_flatMap, toList_print, lines_documentChars h]

/-- Numbered on or not, legible measures are printed without faults. -/
theorem flatMap_diagnostics_of_legible {measures : List Measure} (h : ∀ m ∈ measures, m.Legible)
    (first : ℕ) :
    ((numberFrom first (measures.map measureChars)).flatMap fun line =>
      (readNumbered line).diagnostics) = [] := by
  rw [List.flatMap_eq_nil_iff]
  intro line hline
  have hmem : line.chars ∈ measures.map measureChars := by
    rw [← map_chars_numberFrom first (measures.map measureChars)]
    exact List.mem_map_of_mem hline
  obtain ⟨m, hm, hchars⟩ := List.mem_map.mp hmem
  unfold NumberedReading.diagnostics readNumbered
  rw [← hchars, faults_readLine_measureChars (h m hm)]
  rfl

theorem lineFaults_print {doc : Document} (h : doc.Legible) : lineFaults (print doc) = [] := by
  by_cases hnil : doc.measures = []
  · exact lineFaults_of_allBlank ((allBlank_print_iff h).mpr hnil)
  · rw [lineFaults_print_eq_flatMap hnil]
    exact flatMap_diagnostics_of_legible h 1

/-- A legible document is printed without blank lines, one line for each measure. -/
theorem map_chars_contentLines_print {doc : Document} (h : doc.Legible) :
    (contentLines (print doc).toList).map (·.chars) = doc.measures.map measureChars := by
  by_cases hnil : doc.measures = []
  · rw [(contentLines_eq_nil_iff _).mpr ((allBlank_print_iff h).mpr hnil), hnil]
    rfl
  rw [map_chars_contentLines, toList_print, lines_documentChars hnil, List.filter_eq_self]
  intro line hline
  obtain ⟨m, hm, rfl⟩ := List.mem_map.mp hline
  have hcontent := (lineContent?_measureChars_iff m).mpr (h m hm)
  -- a blank line has no notes, and a printed measure has its own
  by_contra hblank
  unfold lineContent? at hcontent
  rw [if_pos (readLine_of_allBlank (by simpa using hblank)).1] at hcontent
  cases hcontent

/-- The drafts of a legible document stand on consecutive lines. -/
theorem map_line_outline_print {doc : Document} (h : doc.Legible) :
    (outline (print doc)).map (·.line) = List.range' 1 doc.measures.length := by
  by_cases hnil : doc.measures = []
  · rw [outline_of_allBlank ((allBlank_print_iff h).mpr hnil), hnil]
    rfl
  rw [outline_eq_filterMap, toList_print, lines_documentChars hnil, List.map_filterMap]
  -- every printed line has a draft, so no number is skipped
  have hsome : ∀ line ∈ numberFrom 1 (doc.measures.map measureChars),
      (readNumbered line).draft?.map (·.line) = some line.number := by
    intro line hline
    have hmem : line.chars ∈ doc.measures.map measureChars := by
      rw [← map_chars_numberFrom 1 (doc.measures.map measureChars)]
      exact List.mem_map_of_mem hline
    obtain ⟨m, hm, hchars⟩ := List.mem_map.mp hmem
    have hcontent := draft?_readNumbered line
    rw [← hchars, (lineContent?_measureChars_iff m).mpr (h m hm)] at hcontent
    obtain ⟨draft, hdraft, -⟩ := Option.map_eq_some_iff.mp hcontent
    rw [hdraft, Option.map_some, line_of_mem_draft? hdraft]
  rw [List.filterMap_eq_map_iff_forall_eq_some.mpr hsome, map_number_numberFrom, List.length_map]

/-! ## 3. Reading what was printed -/

section

variable {σ : Type} [IdSource σ] (ids : σ) (options : ParseOptions) {doc : Document}

theorem document_parseFrom_print (h : doc.Legible) :
    (parseFrom ids options (print doc)).1.document.map Document.content = some doc.content := by
  rw [parseFrom_document, (legible_iff_map_content_outline doc).mp h]
  have hread : allBlank (print doc).toList = true ∨ outline (print doc) ≠ [] := by
    by_cases hnil : doc.measures = []
    · exact Or.inl ((allBlank_print_iff h).mpr hnil)
    · right
      intro ho
      have hcontent := (legible_iff_map_content_outline doc).mp h
      rw [ho] at hcontent
      exact hnil (List.map_eq_nil_iff.mp hcontent.symm)
  rw [if_pos hread]

theorem legible_of_parseFrom_print {again : Document}
    (hread : (parseFrom ids options (print doc)).1.document = some again)
    (hsame : again.content = doc.content) : doc.Legible := by
  rw [legible_iff_map_content_outline, ← content_of_document ids options (print doc) hread, hsame]

theorem diagnostics_parseFrom_print (h : doc.Legible) :
    (parseFrom ids options (print doc)).1.diagnostics = [] := by
  rw [parseFrom_diagnostics, lineFaults_print h, if_neg]
  rintro ⟨hblank, ho, -⟩
  have hcontent := (legible_iff_map_content_outline doc).mp h
  rw [ho] at hcontent
  have hnil : doc.measures = [] := List.map_eq_nil_iff.mp hcontent.symm
  rw [(allBlank_print_iff h).mpr hnil] at hblank
  cases hblank

theorem measureLines_parseFrom_print (h : doc.Legible) :
    (parseFrom ids options (print doc)).1.measureLines = List.range' 1 doc.measures.length := by
  rw [parseFrom_measureLines, map_line_outline_print h]

end

/-- A printed document comes back exactly when it is legible.  Nothing is reported then, the
measures stand on the first lines of the text, and only the empty document has a blank text. -/
theorem parse_print_sameContent_iff (options : ParseOptions) (doc : Document) :
    ((∃ again, (parse options (print doc)).document = some again ∧ again.sameContent doc = true) ↔
      doc.Legible) ∧
    (doc.Legible → (parse options (print doc)).diagnostics = [] ∧
      (parse options (print doc)).measureLines = List.range' 1 doc.measures.length ∧
      (allBlank (print doc).toList = true ↔ doc.measures = [])) := by
  refine ⟨⟨?_, ?_⟩, ?_⟩
  · rintro ⟨again, hread, hsame⟩
    exact legible_of_parseFrom_print IdSupply.fresh options hread (of_decide_eq_true hsame)
  · intro h
    obtain ⟨again, hread, hsame⟩ :=
      Option.map_eq_some_iff.mp (document_parseFrom_print IdSupply.fresh options h)
    exact ⟨again, hread, decide_eq_true hsame⟩
  · intro h
    exact ⟨diagnostics_parseFrom_print IdSupply.fresh options h,
      measureLines_parseFrom_print IdSupply.fresh options h, allBlank_print_iff h⟩

/-- Two measures, one of them not in 4/4, with an accidental and a rest. -/
def waltz : Document :=
  ⟨⟨1⟩, "Waltz", .standard,
    [⟨⟨1⟩, ⟨3, 4⟩, [⟨⟨1⟩, .pitched ⟨.B, .flat, 3⟩, .quarter⟩, ⟨⟨2⟩, .rest, .half⟩]⟩,
      ⟨⟨2⟩, .common, [⟨⟨3⟩, .pitched ⟨.C, .natural, 4⟩, .whole⟩]⟩]⟩

theorem waltz_comes_back :
    waltz.Legible ∧
    (∃ again, (parse .none (print waltz)).document = some again ∧
      again.sameContent waltz = true) ∧
    (parse .none (print waltz)).diagnostics = [] ∧
    (parse .none (print waltz)).measureLines = [1, 2] := by
  have hlegible : waltz.Legible := by decide
  obtain ⟨hcomes, hclean⟩ := parse_print_sameContent_iff .none waltz
  exact ⟨hlegible, hcomes.mpr hlegible, (hclean hlegible).1, (hclean hlegible).2.1⟩

end TextScore.Notation

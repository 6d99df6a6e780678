import Mathlib
import TextScore.Command.Run
import TextScore.Proofs.Notation.Coherence
import TextScore.Proofs.Notation.RoundTrip

/-!
# Canonical — formatting is done once

Formatting prints what a text reads as.  The printed text drops whatever could not be read, and
nothing is left in it to be dropped again: it reads as the same measures, and printing these gives
the same text.  Warnings are about measures, so they stay, and only follow their measures to the
lines on which these are printed.
-/

namespace TextScore.Notation

open TextScore.Text TextScore.Command

/-! ## 1. Printing is a matter of content -/

theorem notesChars_congr {a b : List Note}
    (h : a.map (fun note => (note.kind, note.duration)) =
      b.map fun note => (note.kind, note.duration)) : notesChars a = notesChars b := by
  have hpairs : ∀ notes : List Note, notes.map pairChars =
      (notes.map fun note => (note.kind, note.duration)).map fun said =>
        said.1.token ++ [' ', said.2.code] := by
    intro notes
    rw [List.map_map]
    rfl
  unfold notesChars
  rw [hpairs a, hpairs b, h]

theorem measureChars_congr {a b : Measure} (h : a.content = b.content) :
    measureChars a = measureChars b := by
  have hsignature : a.signature = b.signature := congrArg Prod.fst h
  have hnotes : notesChars a.notes = notesChars b.notes := notesChars_congr (congrArg Prod.snd h)
  unfold measureChars
  rw [hsignature, hnotes]

/-- Documents that say the same are printed alike. -/
theorem print_congr {a b : Document} (h : a.content = b.content) : print a = print b := by
  have hmeasures : ∀ {ms ns : List Measure}, ms.map Measure.content = ns.map Measure.content →
      ms.map measureChars = ns.map measureChars := by
    intro ms ns hsame
    induction ms generalizing ns with
    | nil => rw [List.map_eq_nil_iff.mp hsame.symm]
    | cons m ms ih =>
      obtain ⟨n, ns, rfl, hn, hns⟩ := List.map_eq_cons_iff.mp hsame.symm
      rw [List.map_cons, List.map_cons, measureChars_congr hn, ih hns.symm]
  unfold print documentChars
  rw [hmeasures h]

/-! ## 2. A line feed at the end -/

theorem parseFrom_append_lineFeed {σ : Type} [IdSource σ] (ids : σ) (options : ParseOptions)
    (text : String) : parseFrom ids options (text ++ "\n") = parseFrom ids options text := by
  have hlist : (text ++ "\n").toList = text.toList ++ ['\n'] := String.toList_append
  apply parseFrom_congr
  unfold readings
  rw [hlist, contentLines_append_lineFeed]

/-! ## 3. Warnings follow their measures -/

theorem warning?_relocated (number : ℕ) {draft moved : Draft} (h : moved.content = draft.content) :
    warning? number moved =
      (warning? number draft).map fun w => { w with line := moved.line } := by
  have hsignature : moved.signature = draft.signature := congrArg Prod.fst h
  have hnotes : moved.notes = draft.notes := congrArg Prod.snd h
  unfold warning?
  rw [hsignature, hnotes, Option.map_map]
  rfl

/-- Measures that say the same on other lines are warned of alike, there. -/
theorem warningsFrom_relocated (place : ℕ → ℕ) (first : ℕ) {ds moved : List Draft}
    (hcontent : moved.map Draft.content = ds.map Draft.content)
    (hlines : moved.map (·.line) = ds.map fun draft => place draft.line) :
    warningsFrom first moved =
      (warningsFrom first ds).map fun w => { w with line := place w.line } := by
  induction ds generalizing first moved with
  | nil =>
    rw [List.map_eq_nil_iff.mp hcontent]
    rfl
  | cons draft rest ih =>
    obtain ⟨new, news, rfl, hnew, hnews⟩ := List.map_eq_cons_iff.mp hcontent
    rw [List.map_cons, List.map_cons, List.cons.injEq] at hlines
    obtain ⟨hline, hlines⟩ := hlines
    rw [warningsFrom, warningsFrom, List.map_append, ih (first + 1) hnews hlines,
      warning?_relocated first hnew, hline]
    congr 1
    -- a warning stands on the line of its measure
    cases hw : warning? first draft with
    | none => rfl
    | some w =>
      obtain ⟨way, beats, rfl⟩ := misfit_of_warning? hw
      rfl

/-! ## 4. Formatting -/

/-- The same remark on the line that has the number of the measure. -/
def atMeasureNumber (measureLines : List ℕ) (w : Diagnostic) : Diagnostic :=
  { w with line := measureLines.idxOf w.line + 1 }

theorem canonicalText_of_clean {output : ParseOutput} {doc : Document}
    (hclean : output.diagnostics = []) (hdoc : output.document = some doc) :
    canonicalText output false = .ok (print doc) := by
  unfold canonicalText ParseOutput.hasErrors
  rw [hclean, hdoc]
  rfl

theorem canonicalText_forced {output : ParseOutput} {doc : Document}
    (hdoc : output.document = some doc) : canonicalText output true = .ok (print doc) := by
  unfold canonicalText
  rw [hdoc, Bool.not_true, Bool.and_false]
  rfl

theorem warnings_parse_print (options again : ParseOptions) {source : String} {doc : Document}
    (hdoc : (parse options source).document = some doc) :
    (parse again (print doc)).warnings =
      (parse options source).warnings.map
        (atMeasureNumber (parse options source).measureLines) := by
  have hcontent : (outline (print doc)).map Draft.content = (outline source).map Draft.content := by
    rw [(legible_iff_map_content_outline doc).mp (legible_of_parseFrom hdoc)]
    exact content_of_document _ _ _ hdoc
  have hlength : doc.measures.length = (outline source).length := by
    have := congrArg List.length (content_of_document _ _ _ hdoc)
    rwa [Document.content, List.length_map, List.length_map] at this
  -- on different lines, the index of a line is that of its measure
  have hlines : (outline (print doc)).map (·.line) =
      (outline source).map fun draft => ((outline source).map (·.line)).idxOf draft.line + 1 := by
    rw [map_line_outline_print (legible_of_parseFrom hdoc), hlength]
    have hnodup : ((outline source).map (·.line)).Nodup := (outline_increasing source).imp ne_of_lt
    apply List.ext_getElem
    · rw [List.length_range', List.length_map]
    · intro i hi _
      have hplace : i < ((outline source).map (·.line)).length := by simpa using hi
      have hindex := hnodup.idxOf_getElem i hplace
      rw [List.getElem_map] at hindex
      rw [List.getElem_range', List.getElem_map, hindex]
      omega
  unfold parse
  rw [parseFrom_warnings, parseFrom_warnings, parseFrom_measureLines]
  exact warningsFrom_relocated (fun line => ((outline source).map (·.line)).idxOf line + 1) 1
    hcontent hlines

/-- What formatting writes reads without a diagnostic, is formatted as it stands, and is given the
same warnings, each on the line that has the number of its measure. -/
theorem formatting_is_a_fixed_point (options again : ParseOptions) {source : String}
    {doc : Document} (hdoc : (parse options source).document = some doc) :
    let parsed := parse options source
    let reparsed := parse again (print doc ++ "\n")
    canonicalText parsed true = .ok (print doc) ∧
      reparsed.diagnostics = [] ∧
      canonicalText reparsed false = .ok (print doc) ∧
      reparsed.warnings = parsed.warnings.map (atMeasureNumber parsed.measureLines) := by
  intro parsed reparsed
  have hreparsed : reparsed = parse again (print doc) := by
    show (parseFrom _ _ _).1 = (parseFrom _ _ _).1
    rw [parseFrom_append_lineFeed]
  have hlegible : doc.Legible := legible_of_parseFrom hdoc
  have hclean : reparsed.diagnostics = [] := by
    rw [hreparsed]
    exact diagnostics_parseFrom_print IdSupply.fresh again hlegible
  -- what is printed reads as the same measures under other names
  obtain ⟨copy, hcopy, hsame⟩ :=
    Option.map_eq_some_iff.mp (document_parseFrom_print IdSupply.fresh again hlegible)
  refine ⟨canonicalText_forced hdoc, hclean, ?_, ?_⟩
  · rw [← print_congr hsame]
    exact canonicalText_of_clean hclean (hreparsed ▸ hcopy)
  · rw [hreparsed]
    exact warnings_parse_print options again hdoc

/-- A bad signature, a bad pair, a word without a partner, a blank line, and two short measures. -/
def draftText : String := "4/x | c4 q Z9 w d4\n\n 3/4|r  h"

def cleanText : String := "C4 q\n3/4 | R h"

theorem draftText_is_formatted_once :
    ∃ doc, (parse .none draftText).document = some doc ∧ print doc = cleanText ∧
      (parse .none draftText).diagnostics.length = 3 ∧
      (parse .none draftText).warnings.map (·.line) = [1, 3] ∧
      (parse .none (cleanText ++ "\n")).diagnostics = [] ∧
      canonicalText (parse .none (cleanText ++ "\n")) false = .ok cleanText ∧
      (parse .none (cleanText ++ "\n")).warnings.map (·.line) = [1, 2] := by
  have hprinted : (parse .none draftText).document.map print = some cleanText := by decide
  obtain ⟨doc, hdoc, hprint⟩ := Option.map_eq_some_iff.mp hprinted
  have hwarnings : (parse .none draftText).warnings.map (·.line) = [1, 3] := by
    decide +kernel
  have hlines : (parse .none draftText).measureLines = [1, 3] := by decide
  obtain ⟨-, hclean, hagain, hmoved⟩ := formatting_is_a_fixed_point .none .none hdoc
  rw [hprint] at hclean hagain hmoved
  refine ⟨doc, hdoc, hprint, by decide, hwarnings, hclean, hagain, ?_⟩
  have hrenumbered : ((parse .none draftText).warnings.map (·.line)).map
      (fun line => [1, 3].idxOf line + 1) = [1, 2] := by rw [hwarnings]; decide
  rw [hmoved, hlines, List.map_map]
  rwa [List.map_map] at hrenumbered

end TextScore.Notation

import Mathlib
import TextScore.Proofs.Notation.Extension

/-!
# LineEnds — blanks at the end of a line do not count

A line ends with its last visible character.  Blanks behind it, a carriage return or several among
them, change neither what the line says nor where anything stands in it, and a line of blanks stays
one whatever is added.  So a text is read alike, names and all, however its lines end.
-/

namespace TextScore

open Text

/-! ## 1. Lines with blanks behind them -/

namespace Text

/-- The lines of the second text are those of the first, each with some blanks behind it. -/
def Padded (text padded : List Char) : Prop :=
  List.Forall₂ (fun line line' => ∃ blanks, allBlank blanks = true ∧ line' = line ++ blanks)
    (text.splitOn '\n') (padded.splitOn '\n')

/-- The text with a carriage return in front of each line feed. -/
def withReturns (text : List Char) : List Char :=
  text.flatMap fun c => if c = '\n' then ['\r', '\n'] else [c]

theorem padded_withReturns (text : List Char) : Padded text (withReturns text) := by
  unfold Padded withReturns
  rw [List.splitOn_eq_splitOnP, List.splitOn_eq_splitOnP]
  induction text with
  | nil => exact .cons ⟨[], rfl, rfl⟩ .nil
  | cons c rest ih =>
    rw [List.flatMap_cons]
    by_cases hc : c = '\n'
    · -- an empty line becomes a line of one carriage return
      rw [if_pos hc, hc, ← List.nil_append ('\n' :: rest),
        List.splitOnP_append_cons [] rest (by decide),
        show ['\r', '\n'] ++ rest.flatMap _ = ['\r'] ++ '\n' :: rest.flatMap _ from rfl,
        List.splitOnP_append_cons ['\r'] _ (by decide)]
      exact .cons ⟨['\r'], by decide, rfl⟩ ih
    · rw [if_neg hc, List.singleton_append, List.splitOnP_cons_eq_if_modifyHead,
        List.splitOnP_cons_eq_if_modifyHead, if_neg (by simpa using hc), if_neg (by simpa using hc)]
      -- any other character goes in front of both first lines
      generalize List.splitOnP (· == '\n') rest = ls at ih ⊢
      generalize List.splitOnP (· == '\n') (rest.flatMap _) = ls' at ih ⊢
      cases ih with
      | nil => exact .nil
      | cons hline hrest =>
        obtain ⟨blanks, hblank, hline⟩ := hline
        exact .cons ⟨blanks, hblank, congrArg (c :: ·) hline⟩ hrest

theorem exists_dropCarriageReturn (line : List Char) :
    ∃ blanks, allBlank blanks = true ∧ line = dropCarriageReturn line ++ blanks := by
  unfold dropCarriageReturn
  split
  next h => exact ⟨['\r'], by decide, (List.dropLast_append_getLast? _ h).symm⟩
  next => exact ⟨[], rfl, (List.append_nil line).symm⟩

end Text

namespace Notation

variable {blanks : List Char}

theorem tokens_append_allBlank (h : allBlank blanks = true) (column : ℕ) (body : List Char) :
    tokens column (body ++ blanks) = tokens column body := by
  cases blanks with
  | nil => rw [List.append_nil]
  | cons blank rest =>
    obtain ⟨hblank, hrest⟩ := Bool.and_eq_true_iff.mp (h : (isBlank blank && allBlank rest) = true)
    rw [tokens_append_blank hblank, tokens_of_allBlank hrest, List.append_nil]

theorem readLine_append_allBlank (h : allBlank blanks = true) (line : List Char) :
    readLine (line ++ blanks) = readLine line := by
  have hbar : '|' ∉ blanks := fun hmem => by
    have hblank : isBlank '|' = true := allBlank_iff.mp h _ hmem
    cases hblank
  have hbody : ∀ signature column body,
      readBody signature column (body ++ blanks) = readBody signature column body := by
    intro signature column body
    unfold readBody
    rw [tokens_append_allBlank h]
  unfold readLine
  rw [splitAtFirst?_append_right hbar]
  -- a bar stays where it is, and the blanks belong to the body
  cases splitAtFirst? '|' line with
  | none => exact hbody _ _ _
  | some cut => exact hbody _ _ _

theorem readLine_dropCarriageReturn (line : List Char) :
    readLine (dropCarriageReturn line) = readLine line := by
  obtain ⟨blanks, hblank, hline⟩ := exists_dropCarriageReturn line
  conv_rhs => rw [hline, readLine_append_allBlank hblank]

/-! ## 2. Texts whose lines are read alike -/

/-- The two lines say the same, and both are blank or neither is. -/
structure ReadAlike (line line' : List Char) : Prop where
  blank : allBlank line' = allBlank line
  reading : readLine line' = readLine line

theorem readAlike_append_allBlank (h : allBlank blanks = true) (line : List Char) :
    ReadAlike (dropCarriageReturn line) (dropCarriageReturn (line ++ blanks)) where
  blank := by
    rw [allBlank_dropCarriageReturn, allBlank_dropCarriageReturn, allBlank_append, h, Bool.and_true]
  reading := by
    rw [readLine_dropCarriageReturn, readLine_dropCarriageReturn, readLine_append_allBlank h]

theorem readings_of_readAlike {text other : List Char}
    (h : List.Forall₂ ReadAlike (lines text) (lines other)) : readings other = readings text := by
  show ((numberFrom 1 (lines other)).filter _).map readNumbered =
    ((numberFrom 1 (lines text)).filter _).map readNumbered
  -- the lines are numbered on, so the induction is over all first numbers
  generalize lines text = ls at h ⊢
  generalize lines other = ls' at h ⊢
  generalize 1 = first
  induction h generalizing first with
  | nil => rfl
  | @cons line line' rest rest' hline _ ih =>
    have hread : readNumbered ⟨first, line'⟩ = readNumbered ⟨first, line⟩ := by
      unfold readNumbered
      rw [hline.reading]
    rw [numberFrom, numberFrom, List.filter_cons, List.filter_cons]
    simp only [hline.blank]
    split
    · rw [List.map_cons, List.map_cons, ih, hread]
    · exact ih _

theorem readings_of_padded {text padded : List Char} (h : Padded text padded) :
    readings padded = readings text := by
  apply readings_of_readAlike
  unfold lines
  rw [List.forall₂_map_left_iff, List.forall₂_map_right_iff]
  refine h.imp ?_
  rintro line line' ⟨blanks, hblank, rfl⟩
  exact readAlike_append_allBlank hblank line

/-- However blanks are put behind the lines of a text, it is read as before, down to the names and
to the source that is left; line breaks of a carriage return and a line feed are a case of this. -/
theorem parseFrom_ignores_line_ends {σ : Type} [IdSource σ] (ids : σ) (options : ParseOptions)
    (text : String) :
    (∀ padded : String, Padded text.toList padded.toList →
        parseFrom ids options padded = parseFrom ids options text) ∧
      parseFrom ids options (String.ofList (withReturns text.toList)) =
        parseFrom ids options text := by
  have hpadded : ∀ padded : String, Padded text.toList padded.toList →
      parseFrom ids options padded = parseFrom ids options text :=
    fun padded h => parseFrom_congr ids options (readings_of_padded h)
  refine ⟨hpadded, hpadded _ ?_⟩
  rw [String.toList_ofList]
  exact padded_withReturns text.toList

/-- A faulty signature, a blank line and a word too many, with all kinds of blanks behind them. -/
theorem ragged_is_read_as_even :
    Padded "3/x |C4 q\n\nD4 w E4".toList "3/x |C4 q\r\r\n\u3000 \r\nD4 w E4\t\u2028\r".toList ∧
      parse .none "3/x |C4 q\r\r\n\u3000 \r\nD4 w E4\t\u2028\r" = parse .none "3/x |C4 q\n\nD4 w E4" ∧
      parse .none (String.ofList (withReturns "3/x |C4 q\n\nD4 w E4".toList)) =
        parse .none "3/x |C4 q\n\nD4 w E4" ∧
      (parse .none "3/x |C4 q\n\nD4 w E4").diagnostics.map (fun d => (d.line, d.column)) =
        [(1, some 1), (3, some 6)] := by
  have hpadded : Padded "3/x |C4 q\n\nD4 w E4".toList
      "3/x |C4 q\r\r\n\u3000 \r\nD4 w E4\t\u2028\r".toList :=
    .cons ⟨"\r\r".toList, by decide, by decide⟩
      (.cons ⟨"\u3000 \r".toList, by decide, by decide⟩
        (.cons ⟨"\t\u2028\r".toList, by decide, by decide⟩ .nil))
  obtain ⟨hends, hreturns⟩ := parseFrom_ignores_line_ends IdSupply.fresh .none "3/x |C4 q\n\nD4 w E4"
  exact ⟨hpadded, congrArg Prod.fst (hends _ hpadded), congrArg Prod.fst hreturns, by decide⟩

end Notation

end TextScore

import Mathlib
import TextScore.Text

/-!
# Lines — blank texts, trimming, and texts cut into lines

A text is blank exactly when it has no line with content.  Lines without line feeds can be joined
and cut again, and a trimmed text can be found again between any blanks.
-/

namespace TextScore.Text

/-! ## 1. Blank texts -/

theorem allBlank_iff {cs : List Char} : allBlank cs = true ↔ ∀ c ∈ cs, isBlank c = true :=
  List.all_eq_true

theorem allBlank_append (a b : List Char) : allBlank (a ++ b) = (allBlank a && allBlank b) :=
  List.all_append

theorem isBlank_eq_false_of_isDigit {c : Char} (h : c.isDigit = true) : isBlank c = false := by
  have hlo : 48 ≤ c.toNat := by
    have := (Char.isDigit_iff_toNat.mp h).1
    simpa using this
  have hhi : c.toNat ≤ 57 := by
    have := (Char.isDigit_iff_toNat.mp h).2
    simpa using this
  -- no blank has a code from 48 to 57
  simp only [isBlank, Bool.or_eq_false_iff, Bool.and_eq_false_iff, decide_eq_false_iff_not,
    beq_eq_false_iff_ne]
  omega

/-! ## 2. Trimming -/

theorem trim_blank_append {a : List Char} (ha : allBlank a = true) (x : List Char) :
    trim (a ++ x) = trim x := by
  unfold trim trimLeft
  rw [List.dropWhile_append_of_pos (allBlank_iff.mp ha)]

theorem trim_append_blank {b : List Char} (hb : allBlank b = true) (x : List Char) :
    trim (x ++ b) = trim x := by
  have hr : ∀ y : List Char, trimRight (y ++ b) = trimRight y := by
    intro y
    unfold trimRight
    rw [List.reverse_append, List.dropWhile_append_of_pos]
    intro c hc
    exact allBlank_iff.mp hb c (List.mem_reverse.mp hc)
  unfold trim trimLeft
  rw [List.dropWhile_append]
  -- if all of `x` is blank, the left trim already takes `b` away
  split
  next hx =>
    have hx' : x.dropWhile isBlank = [] := List.isEmpty_iff.mp hx
    rw [hx', List.dropWhile_eq_nil_iff.mpr (allBlank_iff.mp hb)]
  next => exact hr _

theorem trimLeft_eq_self {x : List Char} (h : ∀ c ∈ x.head?, isBlank c = false) :
    trimLeft x = x := by
  cases x with
  | nil => rfl
  | cons c rest =>
    have hc : isBlank c = false := h c (by simp)
    exact List.dropWhile_cons_of_neg (by simp [hc])

theorem trimRight_eq_self {x : List Char} (h : ∀ c ∈ x.getLast?, isBlank c = false) :
    trimRight x = x := by
  have hl : trimLeft x.reverse = x.reverse := trimLeft_eq_self (by rwa [List.head?_reverse])
  unfold trimLeft at hl
  unfold trimRight
  rw [hl, List.reverse_reverse]

/-- A text that starts and ends with visible characters is found again between blanks. -/
theorem trim_between {a x b : List Char} (ha : allBlank a = true) (hb : allBlank b = true)
    (hhead : ∀ c ∈ x.head?, isBlank c = false) (hlast : ∀ c ∈ x.getLast?, isBlank c = false) :
    trim (a ++ x ++ b) = x := by
  rw [trim_append_blank hb, trim_blank_append ha]
  unfold trim
  rw [trimLeft_eq_self hhead, trimRight_eq_self hlast]

theorem trim_of_visible {x : List Char} (h : ∀ c ∈ x, isBlank c = false) : trim x = x := by
  unfold trim
  rw [trimLeft_eq_self fun c hc => h c (List.mem_of_mem_head? hc),
    trimRight_eq_self fun c hc => h c (List.mem_of_getLast? hc)]

/-- What trimming takes away is blank. -/
theorem exists_trim (x : List Char) :
    ∃ a b, x = a ++ trim x ++ b ∧ allBlank a = true ∧ allBlank b = true := by
  -- the blanks in front, and the blanks behind what is left after them
  refine ⟨x.takeWhile isBlank, ((trimLeft x).reverse.takeWhile isBlank).reverse, ?_, ?_, ?_⟩
  · have hl : x = x.takeWhile isBlank ++ trimLeft x := List.takeWhile_append_dropWhile.symm
    have hr : trimLeft x = trim x ++ ((trimLeft x).reverse.takeWhile isBlank).reverse := by
      unfold trim trimRight
      rw [← List.reverse_append, List.takeWhile_append_dropWhile, List.reverse_reverse]
    rw [List.append_assoc, ← hr]
    exact hl
  · exact List.all_takeWhile
  · unfold allBlank
    rw [List.all_reverse]
    exact List.all_takeWhile

/-! ## 3. Lines -/

theorem allBlank_dropCarriageReturn (line : List Char) :
    allBlank (dropCarriageReturn line) = allBlank line := by
  unfold dropCarriageReturn
  split
  next h =>
    have hline : line = line.dropLast ++ ['\r'] := (List.dropLast_append_getLast? _ h).symm
    conv_rhs => rw [hline, allBlank_append]
    rw [show allBlank ['\r'] = true by decide, Bool.and_true]
  next => rfl

/-- Lines joined by line feeds are the lines of the joined text. -/
theorem lines_intercalate {ls : List (List Char)} (hne : ls ≠ []) (hfeed : ∀ l ∈ ls, '\n' ∉ l)
    (hreturn : ∀ l ∈ ls, l.getLast? ≠ some '\r') : lines (['\n'].intercalate ls) = ls := by
  unfold lines
  rw [List.splitOn_intercalate '\n' hfeed hne]
  have hdrop : ∀ l ∈ ls, dropCarriageReturn l = l := by
    intro l hl
    unfold dropCarriageReturn
    rw [if_neg (hreturn l hl)]
  rw [List.map_congr_left hdrop, List.map_id']

theorem lines_append (a b : List Char) : lines (a ++ '\n' :: b) = lines a ++ lines b := by
  unfold lines
  rw [List.splitOn_eq_splitOnP, List.splitOnP_append_cons a b (by decide), List.map_append]
  rfl

theorem allBlank_intercalate (ls : List (List Char)) :
    allBlank (['\n'].intercalate ls) = ls.all allBlank := by
  induction ls with
  | nil => rfl
  | cons l rest ih =>
    cases rest with
    | nil => rw [List.intercalate_singleton, List.all_cons, List.all_nil, Bool.and_true]
    | cons next rest =>
      rw [List.intercalate_cons_cons, allBlank_append, allBlank_append, ih,
        show allBlank ['\n'] = true by decide, Bool.and_true]
      rfl

theorem all_lines_allBlank (text : List Char) : (lines text).all allBlank = allBlank text := by
  unfold lines
  rw [List.all_map]
  -- line breaks are blank themselves, so cutting at them loses nothing that is visible
  have hdrop : allBlank ∘ dropCarriageReturn = allBlank := funext allBlank_dropCarriageReturn
  rw [hdrop, ← allBlank_intercalate, List.intercalate_splitOn]

/-! ## 4. Numbered lines -/

theorem map_chars_numberFrom (first : Nat) (ls : List (List Char)) :
    (numberFrom first ls).map (·.chars) = ls := by
  induction ls generalizing first with
  | nil => rfl
  | cons l rest ih => rw [numberFrom, List.map_cons, ih]

theorem map_number_numberFrom (first : Nat) (ls : List (List Char)) :
    (numberFrom first ls).map (·.number) = List.range' first ls.length := by
  induction ls generalizing first with
  | nil => rfl
  | cons l rest ih => rw [numberFrom, List.map_cons, ih, List.length_cons, List.range'_succ]

theorem numberFrom_append (first : Nat) (ls later : List (List Char)) :
    numberFrom first (ls ++ later) = numberFrom first ls ++ numberFrom (first + ls.length) later := by
  induction ls generalizing first with
  | nil => rfl
  | cons l rest ih =>
    rw [List.cons_append, numberFrom, numberFrom, ih, List.cons_append, List.length_cons,
      Nat.add_right_comm first 1, Nat.add_assoc]

theorem map_chars_contentLines (text : List Char) :
    (contentLines text).map (·.chars) = (lines text).filter fun line => !allBlank line := by
  conv_rhs => rw [← map_chars_numberFrom 1 (lines text), List.filter_map]
  rfl

/-- A text is blank exactly when no line of it has content. -/
theorem contentLines_eq_nil_iff (text : List Char) :
    contentLines text = [] ↔ allBlank text = true := by
  rw [← all_lines_allBlank, ← map_chars_numberFrom 1 (lines text), List.all_map]
  unfold contentLines
  rw [List.filter_eq_nil_iff, List.all_eq_true]
  simp

/-- A line feed at the end of a text adds a blank line, which has no content. -/
theorem contentLines_append_lineFeed (text : List Char) :
    contentLines (text ++ ['\n']) = contentLines text := by
  unfold contentLines
  rw [lines_append, numberFrom_append, List.filter_append]
  exact List.append_nil _

end TextScore.Text

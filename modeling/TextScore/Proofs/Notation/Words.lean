import Mathlib
import TextScore.Notation.Line
import TextScore.Proofs.Text.Lines

/-!
# Words — tokens without their places

The words of a text are what is left of it when it is split at every blank and the empty pieces are
thrown away.  The tokens of a text are its words, in order, wherever the text starts.
-/

namespace TextScore.Notation

open TextScore.Text

/-- The maximal runs of visible characters. -/
def words (cs : List Char) : List (List Char) :=
  (cs.splitOnP isBlank).filter (· ≠ [])

/-! ## 1. Words of a text made of parts -/

theorem words_append_blank {s : Char} (hs : isBlank s = true) (a b : List Char) :
    words (a ++ s :: b) = words a ++ words b := by
  unfold words
  rw [List.splitOnP_append_cons a b hs, List.filter_append]

theorem words_cons_blank {s : Char} (hs : isBlank s = true) (b : List Char) :
    words (s :: b) = words b :=
  words_append_blank hs [] b

theorem words_of_visible {w : List Char} (hne : w ≠ []) (hw : ∀ c ∈ w, isBlank c = false) :
    words w = [w] := by
  unfold words
  rw [List.splitOnP_eq_singleton hw, List.filter_cons_of_pos (by simpa using hne),
    List.filter_nil]

/-- The first of two visible characters belongs to the word of the second. -/
theorem words_cons_cons_visible {c next : Char} (hc : isBlank c = false)
    (hnext : isBlank next = false) (rest : List Char) :
    ∃ word others, words (next :: rest) = word :: others ∧
      words (c :: next :: rest) = (c :: word) :: others := by
  -- splitting always yields a first piece, which both characters are put in front of
  have hsplit : ∃ piece pieces, rest.splitOnP isBlank = piece :: pieces :=
    List.exists_cons_of_ne_nil (List.splitOnP_ne_nil isBlank rest)
  obtain ⟨piece, pieces, hpieces⟩ := hsplit
  refine ⟨next :: piece, pieces.filter (· ≠ []), ?_, ?_⟩
  · unfold words
    rw [List.splitOnP_cons_eq_if_modifyHead, if_neg (by simp [hnext]), hpieces,
      List.modifyHead_cons, List.filter_cons_of_pos (by simp)]
  · unfold words
    rw [List.splitOnP_cons_eq_if_modifyHead, if_neg (by simp [hc]),
      List.splitOnP_cons_eq_if_modifyHead, if_neg (by simp [hnext]), hpieces,
      List.modifyHead_cons, List.modifyHead_cons, List.filter_cons_of_pos (by simp)]

theorem words_ne_nil_of_visible {c : Char} (hc : isBlank c = false) (rest : List Char) :
    words (c :: rest) ≠ [] := by
  cases rest with
  | nil => rw [words_of_visible (by simp) (by simpa using hc)]; simp
  | cons next rest =>
    by_cases hnext : isBlank next = true
    · rw [show c :: next :: rest = [c] ++ next :: rest from rfl, words_append_blank hnext,
        words_of_visible (by simp) (by simpa using hc)]
      simp
    · obtain ⟨word, others, -, h⟩ := words_cons_cons_visible hc (by simpa using hnext) rest
      rw [h]
      simp

theorem words_eq_nil_iff (cs : List Char) : words cs = [] ↔ allBlank cs = true := by
  induction cs with
  | nil => exact iff_of_true rfl rfl
  | cons c rest ih =>
    by_cases hc : isBlank c = true
    · rw [words_cons_blank hc, ih]
      simp [allBlank, hc]
    · have hc' : isBlank c = false := by simpa using hc
      exact iff_of_false (words_ne_nil_of_visible hc' rest) (by simp [allBlank, hc'])

/-! ## 2. The tokens behind one more character -/

variable {c next : Char}

theorem tokens_cons_blank (hc : isBlank c = true) (column : Nat) (rest : List Char) :
    tokens column (c :: rest) = tokens (column + 1) rest := by
  conv_lhs => unfold tokens
  exact if_pos hc

theorem tokens_singleton (hc : isBlank c = false) (column : Nat) :
    tokens column [c] = [⟨[c], column⟩] := by
  unfold tokens
  rw [if_neg (by simp [hc])]
  rfl

theorem tokens_before_blank (hc : isBlank c = false) (hnext : isBlank next = true) (column : Nat)
    (rest : List Char) :
    tokens column (c :: next :: rest) = ⟨[c], column⟩ :: tokens (column + 1) (next :: rest) := by
  conv_lhs => unfold tokens
  rw [if_neg (by simp [hc])]
  generalize tokens (column + 1) (next :: rest) = later
  cases later with
  | nil => rfl
  | cons token later => exact if_pos hnext

theorem tokens_before_visible (hc : isBlank c = false) (hnext : isBlank next = false)
    {column : Nat} {rest : List Char} {token : Token} {later : List Token}
    (hlater : tokens (column + 1) (next :: rest) = token :: later) :
    tokens column (c :: next :: rest) = ⟨c :: token.chars, column⟩ :: later := by
  conv_lhs => unfold tokens
  rw [if_neg (by simp [hc]), hlater]
  exact if_neg (by simp [hnext])

/-! ## 3. Tokens are words -/

/-- Where a text starts does not matter for what its tokens are. -/
theorem map_chars_tokens (column : Nat) (cs : List Char) :
    (tokens column cs).map (·.chars) = words cs := by
  -- the first two characters decide whether a word starts, ends or goes on
  induction cs generalizing column with
  | nil => rfl
  | cons c rest ih =>
    by_cases hc : isBlank c = true
    · rw [words_cons_blank hc, tokens_cons_blank hc, ih]
    · have hc' : isBlank c = false := by simpa using hc
      have hone : words [c] = [[c]] := words_of_visible (by simp) (by simpa using hc')
      cases rest with
      | nil => rw [tokens_singleton hc', hone, List.map_singleton]
      | cons next rest =>
        have ih := ih (column + 1)
        by_cases hnext : isBlank next = true
        · have hwords : words (c :: next :: rest) = [c] :: words (next :: rest) := by
            have happend := words_append_blank hnext [c] rest
            rw [hone] at happend
            rw [words_cons_blank hnext]
            exact happend
          rw [tokens_before_blank hc' hnext, List.map_cons, ih, hwords]
        · have hnext' : isBlank next = false := by simpa using hnext
          obtain ⟨word, others, hword, hall⟩ := words_cons_cons_visible hc' hnext' rest
          rw [hword] at ih
          -- there is a word behind, so there is a token behind that takes the character
          obtain ⟨token, later, htokens⟩ : ∃ token later,
              tokens (column + 1) (next :: rest) = token :: later :=
            List.exists_cons_of_ne_nil (fun h => by rw [h] at ih; cases ih)
          rw [htokens, List.map_cons, List.cons.injEq] at ih
          rw [tokens_before_visible hc' hnext' htokens, hall, List.map_cons, ih.1, ih.2]

theorem tokens_of_allBlank {cs : List Char} (h : allBlank cs = true) (column : Nat) :
    tokens column cs = [] := by
  apply List.map_eq_nil_iff.mp
  rw [map_chars_tokens, (words_eq_nil_iff cs).mpr h]

theorem length_tokens (column : Nat) (cs : List Char) :
    (tokens column cs).length = (words cs).length := by
  rw [← map_chars_tokens column cs, List.length_map]

end TextScore.Notation

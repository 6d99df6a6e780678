import Mathlib
import TextScore.Proofs.Notation.Outline

/-!
# Columns — where tokens and faults stand in a line

The columns of tokens grow from left to right and stay within their text.  A bad pair is reported at
one of its tokens and a word without a partner at its own column, so the faults of a body follow the
columns of its tokens.
-/

namespace TextScore.Notation

open TextScore.Text

/-! ## 1. Tokens -/

/-- Tokens stand in different columns, from left to right, none in front of the text. -/
theorem columns_tokens_sublist (column : ℕ) (cs : List Char) :
    ((tokens column cs).map (·.column)).Sublist (List.range' column cs.length) := by
  -- the first two characters decide whether a token starts in this column
  induction cs generalizing column with
  | nil => exact .slnil
  | cons c rest ih =>
    rw [List.length_cons, List.range'_succ]
    have ih := ih (column + 1)
    by_cases hc : isBlank c = true
    · rw [tokens_cons_blank hc]
      exact ih.cons _
    · have hc' : isBlank c = false := by simpa using hc
      cases rest with
      | nil =>
        rw [tokens_singleton hc']
        exact List.Sublist.refl _
      | cons next rest =>
        by_cases hnext : isBlank next = true
        · rw [tokens_before_blank hc' hnext]
          exact ih.cons_cons _
        · have hnext' : isBlank next = false := by simpa using hnext
          cases hlater : tokens (column + 1) (next :: rest) with
          | nil =>
            have hwords := map_chars_tokens (column + 1) (next :: rest)
            rw [hlater] at hwords
            exact absurd hwords.symm (words_ne_nil_of_visible hnext' rest)
          | cons token later =>
            rw [hlater] at ih
            rw [tokens_before_visible hc' hnext' hlater]
            exact ((List.sublist_cons_self _ _).trans ih).cons_cons _

/-! ## 2. Faults -/

theorem columns_faultsOf_sublist (toks : List Token) :
    ((faultsOf (readPairs toks)).map (·.column)).Sublist (toks.map (·.column)) := by
  induction toks using readPairs.induct with
  | case1 symbol duration rest ih =>
    rw [readPairs, List.map_cons, List.map_cons]
    cases hpair : readPair symbol duration with
    | ok note => exact (ih.cons _).cons _
    | error fault =>
      rw [faultsOf_cons_error, List.map_cons]
      -- a bad pair is reported at one of its two tokens
      have hcolumn : fault.column = symbol.column ∨ fault.column = duration.column := by
        unfold readPair at hpair
        split at hpair <;> cases hpair
        · exact Or.inl rfl
        · exact Or.inl rfl
        · exact Or.inr rfl
      rcases hcolumn with hcolumn | hcolumn
      · rw [hcolumn]
        exact (ih.cons _).cons_cons _
      · rw [hcolumn]
        exact (ih.cons_cons _).cons _
  | case2 toks htoks =>
    rw [readPairs_of_no_pair htoks]
    exact List.nil_sublist _

/-- Behind words that are all in pairs, pairs are made afresh. -/
theorem readPairs_append {toks : List Token} (heven : toks.length % 2 = 0) (later : List Token) :
    readPairs (toks ++ later) = readPairs toks ++ readPairs later := by
  induction toks using readPairs.induct with
  | case1 symbol duration rest ih =>
    simp only [List.length_cons] at heven
    show readPair symbol duration :: readPairs (rest ++ later) = _
    rw [ih (by omega)]
    rfl
  | case2 toks htoks =>
    rcases toks with - | ⟨symbol, - | ⟨duration, rest⟩⟩
    · rfl
    · cases heven
    · exact absurd rfl (htoks symbol duration rest)

/-- The last of an odd number of tokens is in no pair. -/
theorem readPairs_append_singleton {toks : List Token} (heven : toks.length % 2 = 0) (last : Token) :
    readPairs (toks ++ [last]) = readPairs toks := by
  rw [readPairs_append heven]
  exact List.append_nil _

/-- Faults of pairs and then that of the last word follow the tokens of a body. -/
theorem columns_body_sublist (toks : List Token) :
    ((faultsOf (readPairs toks) ++ (dangling? toks).toList).map (·.column)).Sublist
      (toks.map (·.column)) := by
  unfold dangling?
  by_cases heven : toks.length % 2 = 0
  · rw [if_pos heven, Option.toList_none, List.append_nil]
    exact columns_faultsOf_sublist toks
  · rcases List.eq_nil_or_concat' toks with rfl | ⟨front, last, rfl⟩
    · exact absurd rfl heven
    · -- all tokens in front of the last one are in pairs
      have hfront : front.length % 2 = 0 := by
        rw [List.length_append, List.length_singleton] at heven
        omega
      rw [if_neg heven, List.getLast?_concat, Option.map_some, Option.toList_some,
        readPairs_append_singleton hfront, List.map_append, List.map_append]
      exact (columns_faultsOf_sublist front).append (List.Sublist.refl _)

end TextScore.Notation

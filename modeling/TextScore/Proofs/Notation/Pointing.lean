import Mathlib
import TextScore.Proofs.Notation.Account
import TextScore.Proofs.Notation.Coherence
import TextScore.Proofs.Notation.Columns

/-!
# Pointing — the column of a fault is where the faulty word stands

A column counts characters from the start of the line, and words are looked for behind the bar only.
So a fault in the body points at a whole word of the body, the one that it names, however wide the
characters and blanks in front of it are when they are stored.  A signature that cannot be read is
pointed at from its first visible character.
-/

namespace TextScore.Notation

open TextScore.Text

/-! ## 1. Words in their place -/

/-- The word is a run of visible characters of the text with this many characters in front of it,
and neither in front nor behind could it be longer. -/
def StandsIn (word text : List Char) (offset : ℕ) : Prop :=
  ∃ front behind, text = front ++ (word ++ behind) ∧ front.length = offset ∧
    word ≠ [] ∧ (∀ c ∈ word, isBlank c = false) ∧
    (∀ c ∈ front.getLast?, isBlank c = true) ∧ ∀ c ∈ behind.head?, isBlank c = true

section

variable {c next : Char} {word rest : List Char} {offset : ℕ}

/-- A visible character in front of a word would belong to it. -/
theorem StandsIn.cons (h : StandsIn word rest offset) (hc : offset = 0 → isBlank c = true) :
    StandsIn word (c :: rest) (offset + 1) := by
  obtain ⟨front, behind, hrest, hoffset, hne, hword, hfront, hbehind⟩ := h
  refine ⟨c :: front, behind, ?_, ?_, hne, hword, ?_, hbehind⟩
  · rw [hrest, List.cons_append]
  · rw [List.length_cons, hoffset]
  · cases front with
    | nil =>
      intro d hd
      rw [← Option.some.inj hd]
      exact hc hoffset.symm
    | cons first front => exact hfront

theorem StandsIn.cons_visible (h : StandsIn word rest 0) (hc : isBlank c = false) :
    StandsIn (c :: word) (c :: rest) 0 := by
  obtain ⟨front, behind, hrest, hoffset, -, hword, -, hbehind⟩ := h
  have hfront : front = [] := List.length_eq_zero_iff.mp hoffset
  refine ⟨[], behind, ?_, rfl, List.cons_ne_nil c word, ?_, ?_, hbehind⟩
  · rw [hrest, hfront]
    rfl
  · exact List.forall_mem_cons.mpr ⟨hc, hword⟩
  · intro d hd
    cases hd

theorem standsIn_singleton (hc : isBlank c = false) (hrest : ∀ d ∈ rest.head?, isBlank d = true) :
    StandsIn [c] (c :: rest) 0 := by
  refine ⟨[], rest, rfl, rfl, List.cons_ne_nil c [], ?_, ?_, hrest⟩
  · exact List.forall_mem_singleton.mpr hc
  · intro d hd
    cases hd

/-- No word starts with a blank. -/
theorem StandsIn.offset_ne_zero (h : StandsIn word (next :: rest) offset)
    (hnext : isBlank next = true) : offset ≠ 0 := by
  intro hzero
  obtain ⟨front, behind, htext, hoffset, hne, hword, -, -⟩ := h
  have hfront : front = [] := List.length_eq_zero_iff.mp (hoffset.trans hzero)
  obtain ⟨first, word, rfl⟩ := List.exists_cons_of_ne_nil hne
  rw [hfront, List.nil_append, List.cons_append] at htext
  have hvisible : isBlank first = false := hword first List.mem_cons_self
  rw [← (List.cons.inj htext).1, hnext] at hvisible
  cases hvisible

theorem exists_tokens_of_visible (hc : isBlank c = false) (rest : List Char) (first : ℕ) :
    ∃ token later, tokens first (c :: rest) = token :: later := by
  apply List.exists_cons_of_ne_nil
  intro hnil
  have hwords := map_chars_tokens first (c :: rest)
  rw [hnil] at hwords
  exact words_ne_nil_of_visible hc rest hwords.symm

theorem column_of_tokens_visible (hc : isBlank c = false) {first : ℕ} {token : Token}
    {later : List Token} (h : tokens first (c :: rest) = token :: later) :
    token.column = first := by
  cases rest with
  | nil =>
    rw [tokens_singleton hc] at h
    rw [← (List.cons.inj h).1]
  | cons next rest =>
    by_cases hnext : isBlank next = true
    · rw [tokens_before_blank hc hnext] at h
      rw [← (List.cons.inj h).1]
    · have hnext' : isBlank next = false := by simpa using hnext
      obtain ⟨second, others, hothers⟩ :=
        exists_tokens_of_visible hnext' rest (first + 1)
      rw [tokens_before_visible hc hnext' hothers] at h
      rw [← (List.cons.inj h).1]

theorem tokens_increasing (first : ℕ) (text : List Char) :
    (tokens first text).Pairwise fun a b => a.column < b.column := by
  rw [← List.pairwise_map (f := Token.column) (R := (· < ·))]
  exact List.Pairwise.sublist (columns_tokens_sublist _ _) List.pairwise_lt_range'

end

/-- Each token stands in the text at its column. -/
theorem standsIn_of_mem_tokens {first : ℕ} {text : List Char} {token : Token}
    (h : token ∈ tokens first text) :
    ∃ offset, token.column = first + offset ∧ StandsIn token.chars text offset := by
  -- the first two characters decide whether a word starts, ends or goes on
  induction text generalizing first token with
  | nil => cases h
  | cons c rest ih =>
    -- a token of the rest is a token of the whole, unless it is continued to the front
    have hlater : ∀ token ∈ tokens (first + 1) rest,
        (token.column = first + 1 → isBlank c = true) →
        ∃ offset, token.column = first + offset ∧ StandsIn token.chars (c :: rest) offset := by
      intro token htoken hc
      obtain ⟨offset, hcolumn, hstands⟩ := ih htoken
      refine ⟨offset + 1, by omega, hstands.cons ?_⟩
      intro hzero
      exact hc (by omega)
    by_cases hc : isBlank c = true
    · rw [tokens_cons_blank hc] at h
      exact hlater token h fun _ => hc
    have hc' : isBlank c = false := by simpa using hc
    cases rest with
    | nil =>
      rw [tokens_singleton hc', List.mem_singleton] at h
      rw [h]
      refine ⟨0, rfl, standsIn_singleton hc' ?_⟩
      intro d hd
      cases hd
    | cons next rest =>
      by_cases hnext : isBlank next = true
      · rw [tokens_before_blank hc' hnext] at h
        rcases List.mem_cons.mp h with h | h
        · rw [h]
          refine ⟨0, rfl, standsIn_singleton hc' ?_⟩
          intro d hd
          rwa [← Option.some.inj hd]
        · obtain ⟨offset, hcolumn, hstands⟩ := ih h
          have hne := hstands.offset_ne_zero hnext
          apply hlater token h
          omega
      · have hnext' : isBlank next = false := by simpa using hnext
        obtain ⟨second, others, hothers⟩ :=
          exists_tokens_of_visible hnext' rest (first + 1)
        have hsecond : second.column = first + 1 := column_of_tokens_visible hnext' hothers
        rw [tokens_before_visible hc' hnext' hothers] at h
        rcases List.mem_cons.mp h with h | h
        · -- the character joins the token behind it
          obtain ⟨offset, hcolumn, hstands⟩ := ih (hothers ▸ List.mem_cons_self)
          have hzero : offset = 0 := by omega
          rw [hzero] at hstands
          rw [h]
          exact ⟨0, rfl, hstands.cons_visible hc'⟩
        · -- all others stand behind that token
          have hsorted := tokens_increasing (first + 1) (next :: rest)
          rw [hothers] at hsorted
          have hlt := (List.pairwise_cons.mp hsorted).1 token h
          apply hlater token (hothers ▸ List.mem_cons_of_mem second h)
          omega

/-! ## 2. What a fault points at -/

/-- In this column of the line, counted from 1, starts this word of its body. -/
inductive WordAt : List Char → ℕ → List Char → Prop
  | intro {lead body word : List Char} {before : Option (List Char)} {offset : ℕ}
      (hdivides : Divides (lead ++ body) before body) (hword : StandsIn word body offset) :
      WordAt (lead ++ body) (lead.length + offset + 1) word

/-- The column of the first visible character, or the first column when there is none. -/
inductive FirstVisible : List Char → ℕ → Prop
  | none {text : List Char} (h : allBlank text = true) : FirstVisible text 1
  | some {blanks rest : List Char} {c : Char} (h : allBlank blanks = true)
      (hc : isBlank c = false) : FirstVisible (blanks ++ c :: rest) (blanks.length + 1)

theorem firstVisible_visibleColumn (text : List Char) : FirstVisible text (visibleColumn text) := by
  unfold visibleColumn
  by_cases h : allBlank text = true
  · rw [if_pos h]
    exact .none h
  · rw [if_neg h]
    have hsplit : text.takeWhile isBlank ++ text.dropWhile isBlank = text :=
      List.takeWhile_append_dropWhile
    have hblanks : allBlank (text.takeWhile isBlank) = true := by
      rw [allBlank_iff]
      intro c hc
      exact List.mem_takeWhile_imp hc
    cases hrest : text.dropWhile isBlank with
    | nil =>
      rw [hrest, List.append_nil] at hsplit
      rw [hsplit] at hblanks
      exact absurd hblanks h
    | cons c rest =>
      have hc : isBlank c = false := by
        have hhead := List.head?_dropWhile_not isBlank text
        rw [hrest] at hhead
        simpa using hhead
      have hfirst : FirstVisible (text.takeWhile isBlank ++ c :: rest) _ :=
        .some hblanks hc
      rwa [← hrest, hsplit] at hfirst

end TextScore.Notation

namespace TextScore

open TextScore.Text Notation

/-- A diagnostic of the body points at the word that it is about, one of a malformed signature at the
start of what stands before the bar.  The other kinds are not found in a line. -/
def DiagnosticKind.PointsAt (line : List Char) (column : ℕ) (subject : String) :
    DiagnosticKind → Prop
  | .danglingToken | .invalidPitch | .invalidDuration =>
    ∃ word, subject = String.ofList word ∧ WordAt line column word
  | .malformedTimeSignature =>
    ∃ before body, Divides line (some before) body ∧ subject = String.ofList (trim before) ∧
      FirstVisible before column
  | .overfull | .underfull | .noValidNotes => False

namespace Notation

section

variable {line lead body : List Char} {before : Option (List Char)} {g : LocatedFault}

theorem wordAt_of_mem_tokens (hdivides : Divides (lead ++ body) before body) {token : Token}
    (h : token ∈ tokens (lead.length + 1) body) :
    WordAt (lead ++ body) token.column token.chars := by
  obtain ⟨offset, hcolumn, hstands⟩ := standsIn_of_mem_tokens h
  rw [hcolumn, Nat.add_right_comm]
  exact .intro hdivides hstands

/-- A bad pair is reported at one of its words, which it names as bad. -/
theorem exists_token_of_mem_faultsOf {toks : List Token} (h : g ∈ faultsOf (readPairs toks)) :
    ∃ token ∈ toks, g.column = token.column ∧
      ((∃ bad, g.fault = .invalidPitch token.chars bad) ∨
        ∃ symbol, g.fault = .invalidDuration token.chars symbol) := by
  induction toks using readPairs.induct with
  | case1 symbol duration rest ih =>
    rw [readPairs, faultsOf, List.filterMap_cons] at h
    -- either this pair is bad, and its first bad half is named, or a later one is
    have hcases : (readPair symbol duration = .error g) ∨ g ∈ faultsOf (readPairs rest) := by
      cases hpair : readPair symbol duration with
      | ok note =>
        rw [hpair] at h
        exact Or.inr h
      | error fault =>
        rw [hpair] at h
        rcases List.mem_cons.mp h with rfl | h
        · exact Or.inl rfl
        · exact Or.inr h
    rcases hcases with hpair | hlater
    · have hsymbol : symbol ∈ symbol :: duration :: rest := List.mem_cons_self
      have hduration : duration ∈ symbol :: duration :: rest :=
        List.mem_cons_of_mem _ List.mem_cons_self
      unfold readPair at hpair
      split at hpair <;> cases hpair
      · exact ⟨symbol, hsymbol, rfl, Or.inl ⟨none, rfl⟩⟩
      · exact ⟨symbol, hsymbol, rfl, Or.inl ⟨some duration.chars, rfl⟩⟩
      · exact ⟨duration, hduration, rfl, Or.inr ⟨symbol.chars, rfl⟩⟩
    · obtain ⟨token, htoken, hfault⟩ := ih hlater
      exact ⟨token, List.mem_cons_of_mem _ (List.mem_cons_of_mem _ htoken), hfault⟩
  | case2 toks htoks =>
    rw [readPairs_of_no_pair htoks] at h
    cases h

theorem pointsAt_of_mem_bodyFaults (hdivides : Divides (lead ++ body) before body)
    {signature : TimeSignature × Option LocatedFault}
    (h : g ∈ (readBody signature (lead.length + 1) body).bodyFaults) :
    g.fault.kind.PointsAt (lead ++ body) g.column g.fault.subject := by
  rcases List.mem_append.mp h with h | h
  · -- a word without a partner is the last token
    rw [Option.mem_toList] at h
    unfold dangling? at h
    split at h
    · cases h
    · obtain ⟨token, htoken, rfl⟩ := Option.map_eq_some_iff.mp h
      exact ⟨token.chars, rfl, wordAt_of_mem_tokens hdivides (List.mem_of_getLast? htoken)⟩
  · obtain ⟨token, htoken, hcolumn, ⟨bad, hfault⟩ | ⟨symbol, hfault⟩⟩ :=
      exists_token_of_mem_faultsOf h
    all_goals
      rw [hfault, hcolumn]
      exact ⟨token.chars, rfl, wordAt_of_mem_tokens hdivides htoken⟩

theorem pointsAt_of_mem_readPrefix {text : List Char} (hdivides : Divides line (some text) body)
    (h : g ∈ (readPrefix text).2) : g.fault.kind.PointsAt line g.column g.fault.subject := by
  unfold readPrefix at h
  split at h
  · cases h
  · cases h
    exact ⟨text, body, hdivides, rfl, firstVisible_visibleColumn text⟩

theorem pointsAt_of_mem_faults (h : g ∈ (readLine line).faults) :
    g.fault.kind.PointsAt line g.column g.fault.subject := by
  unfold readLine at h
  cases hsplit : splitAtFirst? '|' line with
  | some cut =>
    obtain ⟨text, behind⟩ := cut
    rw [hsplit] at h
    have hdivides : Divides line (some text) behind := divides_some_iff.mpr hsplit
    rcases List.mem_append.mp h with h | h
    · exact pointsAt_of_mem_readPrefix hdivides (Option.mem_toList.mp h)
    · -- the bar counts as a column, so the body starts behind it
      have hline : line = (text ++ ['|']) ++ behind := by
        rw [(splitAtFirst?_eq_some_iff.mp hsplit).2, List.append_assoc]
        rfl
      have hcolumn : text.length + 2 = (text ++ ['|']).length + 1 := by
        rw [List.length_append, List.length_singleton]
      have hbody : g ∈ (readBody (readPrefix text) (text.length + 2) behind).bodyFaults := h
      rw [hline] at hdivides ⊢
      rw [hcolumn] at hbody
      exact pointsAt_of_mem_bodyFaults hdivides hbody
  | none =>
    rw [hsplit] at h
    have hdivides : Divides ([] ++ line) none line := divides_none_iff.mpr ⟨hsplit, rfl⟩
    have hbody : g ∈ (readBody (.common, none) (([] : List Char).length + 1) line).bodyFaults := h
    exact pointsAt_of_mem_bodyFaults hdivides hbody

end

/-! ## 3. Texts -/

section

variable {σ : Type} [IdSource σ] (ids : σ) (options : ParseOptions) (text : String)

/-- Whatever is reported, but that there are no notes at all, points into its line at the very word
that its message quotes. -/
theorem diagnostics_point_at_words {d : Diagnostic}
    (hd : d ∈ (parseFrom ids options text).1.diagnostics) (hkind : d.kind ≠ .noValidNotes) :
    ∃ (i : ℕ) (line : List Char) (column : ℕ) (subject : String),
      (lines text.toList)[i]? = some line ∧ d.line = i + 1 ∧ d.column = some column ∧
        Quotes d.kind subject d.message ∧ d.kind.PointsAt line column subject := by
  rw [parseFrom_diagnostics] at hd
  split at hd
  · rw [List.mem_singleton] at hd
    rw [hd] at hkind
    exact absurd rfl hkind
  · unfold lineFaults readings at hd
    rw [List.flatMap_map] at hd
    obtain ⟨line, hline, hd⟩ := List.mem_flatMap.mp hd
    obtain ⟨g, hg, rfl⟩ := List.mem_map.mp hd
    obtain ⟨i, hnumber, hchars⟩ := getElem?_of_mem_numberFrom (List.mem_filter.mp hline).1
    refine ⟨i, line.chars, g.column, g.fault.subject, hchars, ?_, rfl, g.fault.quotes_message,
      pointsAt_of_mem_faults hg⟩
    rw [← Nat.add_comm 1 i, ← hnumber]
    rfl

/-- Wide blanks and characters of up to four bytes, a carriage return at the end. -/
def wideText : String := "\n\u3000é/4 |\u2003𝄞4 q\u00a0C4 ½ D4\r"

theorem wideText_diagnostics_point_at_words :
    let diagnostics := (parse .none wideText).diagnostics
    diagnostics =
        [⟨2, some 2, .malformedTimeSignature, "Malformed time signature 'é/4' (expected " ++
            "<beats>/<beat-type> with positive numbers); using 4/4"⟩,
          ⟨2, some 18, .danglingToken, "Dangling token 'D4' has no partner (expected " ++
            "<pitch|R> <duration> pairs)"⟩,
          ⟨2, some 8, .invalidPitch, "Invalid pitch '𝄞4' (expected a letter A-G, optional # or b, " ++
            "and an octave 0-9, or R for a rest)"⟩,
          ⟨2, some 16, .invalidDuration, "Invalid duration '½' after 'C4' (expected one of " ++
            "w, h, q, e, s)"⟩] ∧
      (∀ d ∈ diagnostics, d.kind ≠ .noValidNotes) ∧
      ∀ d ∈ diagnostics, ∃ (i : ℕ) (line : List Char) (column : ℕ) (subject : String),
        (lines wideText.toList)[i]? = some line ∧ d.line = i + 1 ∧ d.column = some column ∧
          Quotes d.kind subject d.message ∧ d.kind.PointsAt line column subject := by
  intro diagnostics
  have hkind : ∀ d ∈ diagnostics, d.kind ≠ .noValidNotes := by decide
  refine ⟨by decide +kernel, hkind, ?_⟩
  intro d hd
  exact diagnostics_point_at_words IdSupply.fresh .none wideText hd (hkind d hd)

end

end Notation

end TextScore

import Mathlib
import TextScore.Document
import TextScore.Proofs.Notation.Legible

/-!
# Printed — reading one printed measure

A printed measure reads as itself exactly when it is legible: illegible notes drop out, and an
illegible signature turns into 4/4.
-/

namespace TextScore.Notation

open TextScore.Text

/-! ## 1. The characters of a printed measure -/

theorem visible_of_mem_kind_token {kind : NoteKind} {c : Char} (hc : c ∈ kind.token) :
    isBlank c = false ∧ c ≠ '|' := by
  cases kind with
  | pitched p => exact Pitch.visible_of_mem_token hc
  | rest =>
    rw [List.mem_singleton.mp hc]
    decide

theorem visible_code (d : Duration) : isBlank d.code = false ∧ d.code ≠ '|' := by
  cases d <;> decide

theorem mem_notesChars {notes : List Note} {c : Char} (hc : c ∈ notesChars notes) :
    c = ' ' ∨ isBlank c = false ∧ c ≠ '|' := by
  have hpair : ∀ note : Note, c ∈ pairChars note → c = ' ' ∨ isBlank c = false ∧ c ≠ '|' := by
    intro note hmem
    unfold pairChars at hmem
    rcases List.mem_append.mp hmem with hmem | hmem
    · exact Or.inr (visible_of_mem_kind_token hmem)
    rcases List.mem_cons.mp hmem with hmem | hmem
    · exact Or.inl hmem
    · rw [List.mem_singleton.mp hmem]
      exact Or.inr (visible_code note.duration)
  unfold notesChars at hc
  -- pairs are joined by single spaces: the character is in the first pair, the space or the rest
  induction notes with
  | nil => cases hc
  | cons note rest ih =>
    cases rest with
    | nil => exact hpair note (by simpa using hc)
    | cons next rest =>
      rw [List.map_cons, List.map_cons, List.intercalate_cons_cons] at hc
      rcases List.mem_append.mp hc with hc | hc
      · rcases List.mem_append.mp hc with hc | hc
        · exact hpair note hc
        · exact Or.inl (List.mem_singleton.mp hc)
      · exact ih hc

theorem mem_measureChars {m : Measure} {c : Char} (hc : c ∈ measureChars m) :
    c = ' ' ∨ isBlank c = false := by
  have hnotes : c ∈ notesChars m.notes → c = ' ' ∨ isBlank c = false := fun h =>
    (mem_notesChars h).imp_right And.left
  unfold measureChars at hc
  split at hc
  · exact hnotes hc
  · rcases List.mem_append.mp hc with hc | hc
    · exact Or.inr (visible_of_mem_chars hc).1
    simp only [List.mem_cons] at hc
    rcases hc with hc | hc | hc | hc
    · exact Or.inl hc
    · subst hc
      exact Or.inr (by decide)
    · exact Or.inl hc
    · exact hnotes hc

theorem lineFeed_not_mem_measureChars (m : Measure) : '\n' ∉ measureChars m := by
  intro h
  rcases mem_measureChars h with h | h
  · cases h
  · simp [isBlank] at h

theorem carriageReturn_not_mem_measureChars (m : Measure) : '\r' ∉ measureChars m := by
  intro h
  rcases mem_measureChars h with h | h
  · cases h
  · simp [isBlank] at h

/-! ## 2. Printed notes -/

/-- The words of printed notes, two for each note. -/
def noteWords (notes : List Note) : List (List Char) :=
  notes.flatMap fun note => [note.kind.token, [note.duration.code]]

theorem kind_token_ne_nil (kind : NoteKind) : kind.token ≠ [] := by
  cases kind <;> simp [NoteKind.token, Pitch.token]

theorem words_pairChars (note : Note) :
    words (pairChars note) = [note.kind.token, [note.duration.code]] := by
  unfold pairChars
  rw [words_append_blank (by decide),
    words_of_visible (kind_token_ne_nil _) fun c hc => (visible_of_mem_kind_token hc).1,
    words_of_visible (by simp) (by simpa using (visible_code note.duration).1)]
  rfl

theorem words_notesChars (notes : List Note) : words (notesChars notes) = noteWords notes := by
  unfold notesChars noteWords
  induction notes with
  | nil => rfl
  | cons note rest ih =>
    cases rest with
    | nil =>
      rw [List.map_singleton, List.intercalate_singleton, words_pairChars]
      rfl
    | cons next rest =>
      rw [List.map_cons, List.map_cons, List.intercalate_cons_cons, List.append_assoc,
        List.singleton_append, words_append_blank (by decide), words_pairChars, List.flatMap_cons,
        ← ih]
      rfl

theorem length_noteWords (notes : List Note) : (noteWords notes).length = 2 * notes.length := by
  unfold noteWords
  induction notes with
  | nil => rfl
  | cons note rest ih =>
    rw [List.flatMap_cons, List.length_append, ih, List.length_cons, List.length_cons,
      List.length_cons, List.length_nil]
    omega

/-! ## 3. Reading printed notes -/

theorem readSymbol?_token (kind : NoteKind) :
    readSymbol? kind.token = if kind.Legible then some kind else none := by
  cases kind with
  | rest => rfl
  | pitched p =>
    -- a pitch has a letter and an octave, so it is never taken for a rest
    have hlong : ∀ c : Char, p.token ≠ [c] := by
      intro c h
      have hpos : (Pitch.octaveChars p.octave.toInt) ≠ [] := by
        unfold Pitch.octaveChars
        split
        · simp
        · exact Nat.toDigits_ne_nil
      simp [Pitch.token, hpos] at h
    unfold readSymbol? NoteKind.token
    rw [if_neg (by simp [hlong])]
    by_cases h : p.Legible
    · rw [if_pos (show NoteKind.Legible (.pitched p) from h), Pitch.ofToken?_token_of_legible h]
      rfl
    · rw [if_neg (show ¬ NoteKind.Legible (.pitched p) from h),
        Pitch.ofToken?_token_of_not_legible h]
      rfl

theorem readPair_printed {note : Note} {symbol duration : Token}
    (hsymbol : symbol.chars = note.kind.token) (hduration : duration.chars = [note.duration.code]) :
    readPair symbol duration =
      if note.kind.Legible then .ok (note.kind, note.duration)
      else .error ⟨symbol.column, .invalidPitch symbol.chars none⟩ := by
  have hread : readSymbol? symbol.chars = if note.kind.Legible then some note.kind else none := by
    rw [hsymbol, readSymbol?_token]
  unfold readPair
  rw [hread, hduration, Duration.ofCode?_code]
  by_cases h : note.kind.Legible
  · rw [if_pos h, if_pos h]
  · rw [if_neg h, if_neg h]

theorem notesOf_readPairs_printed {notes : List Note} {toks : List Token}
    (h : toks.map (·.chars) = noteWords notes) :
    notesOf (readPairs toks) =
      (notes.filter (·.kind.Legible)).map fun note => (note.kind, note.duration) := by
  induction notes generalizing toks with
  | nil => rw [List.map_eq_nil_iff.mp h]; rfl
  | cons note rest ih =>
    -- the first note owns the first two tokens
    obtain ⟨symbol, toks, rfl, hsymbol, h⟩ := List.map_eq_cons_iff.mp h
    obtain ⟨duration, toks, rfl, hduration, h⟩ := List.map_eq_cons_iff.mp h
    have ih := ih h
    rw [readPairs, readPair_printed hsymbol hduration]
    by_cases hlegible : note.kind.Legible
    · rw [if_pos hlegible, notesOf_cons_ok, ih,
        List.filter_cons_of_pos (by simpa using hlegible), List.map_cons]
    · rw [if_neg hlegible, notesOf_cons_error, ih,
        List.filter_cons_of_neg (by simpa using hlegible)]

theorem faultsOf_readPairs_printed {notes : List Note} {toks : List Token}
    (h : toks.map (·.chars) = noteWords notes) (hlegible : ∀ note ∈ notes, note.kind.Legible) :
    faultsOf (readPairs toks) = [] := by
  induction notes generalizing toks with
  | nil => rw [List.map_eq_nil_iff.mp h]; rfl
  | cons note rest ih =>
    obtain ⟨symbol, toks, rfl, hsymbol, h⟩ := List.map_eq_cons_iff.mp h
    obtain ⟨duration, toks, rfl, hduration, h⟩ := List.map_eq_cons_iff.mp h
    have ih := ih h fun note hnote => hlegible note (List.mem_cons_of_mem _ hnote)
    rw [readPairs, readPair_printed hsymbol hduration, if_pos (hlegible note (by simp)),
      faultsOf_cons_ok, ih]

/-! ## 4. Reading a printed measure -/

/-- A printed measure is read as its notes behind its signature. -/
theorem readLine_measureChars (m : Measure) :
    ∃ signature column body, readLine (measureChars m) = readBody signature column body ∧
      words body = noteWords m.notes ∧
      if m.signature.Positive then signature = (m.signature, none) else signature.1 = .common := by
  unfold measureChars
  split
  -- in 4/4 no bar is printed, and no note brings one
  next hcommon =>
    have hbar : '|' ∉ notesChars m.notes := fun hmem => by
      rcases mem_notesChars hmem with h | h
      · cases h
      · exact h.2 rfl
    refine ⟨(.common, none), 1, notesChars m.notes, ?_, words_notesChars m.notes, ?_⟩
    · unfold readLine
      rw [splitAtFirst?_eq_none_iff.mpr hbar]
    · rw [if_pos (by rw [hcommon]; decide), hcommon]
  -- otherwise the first bar is the one behind the signature
  next =>
    have hbar : '|' ∉ m.signature.chars ++ [' '] := fun hmem => by
      rcases List.mem_append.mp hmem with h | h
      · exact (visible_of_mem_chars h).2 rfl
      · simp at h
    refine ⟨_, (m.signature.chars ++ [' ']).length + 2, ' ' :: notesChars m.notes, ?_, ?_,
      readPrefix_chars m.signature⟩
    · unfold readLine
      rw [show m.signature.chars ++ ' ' :: '|' :: ' ' :: notesChars m.notes =
        (m.signature.chars ++ [' ']) ++ '|' :: (' ' :: notesChars m.notes) by simp,
        splitAtFirst?_append hbar]
    · rw [words_cons_blank (by decide), words_notesChars]

/-- A printed measure reads as itself exactly when it is legible. -/
theorem lineContent?_measureChars_iff (m : Measure) :
    lineContent? (measureChars m) = some m.content ↔ m.Legible := by
  obtain ⟨signature, column, body, hread, hwords, hsignature⟩ := readLine_measureChars m
  have hnotes : (readLine (measureChars m)).notes =
      (m.notes.filter (·.kind.Legible)).map fun note => (note.kind, note.duration) := by
    rw [hread]
    exact notesOf_readPairs_printed (by rw [map_chars_tokens, hwords])
  have hsig : (readLine (measureChars m)).signature = signature.1 := by rw [hread]; rfl
  unfold lineContent?
  rw [hnotes, hsig]
  constructor
  · intro h
    split at h
    · cases h
    next hne =>
      have h := Option.some.inj h
      have hfirst : signature.1 = m.signature := congrArg Prod.fst h
      have hsecond : (m.notes.filter (·.kind.Legible)).map (fun note => (note.kind, note.duration)) =
          m.notes.map fun note => (note.kind, note.duration) := congrArg Prod.snd h
      -- a note that dropped out would be missing in the count
      have hlength : (m.notes.filter (·.kind.Legible)).length = m.notes.length := by
        have := congrArg List.length hsecond
        rwa [List.length_map, List.length_map] at this
      refine ⟨?_, ?_, ?_⟩
      · intro hnil
        rw [hnil] at hne
        exact hne rfl
      · by_contra hpos
        rw [if_neg hpos, hfirst] at hsignature
        exact hpos (by rw [hsignature]; decide)
      · intro note hnote
        have := List.length_filter_eq_length_iff.mp hlength note hnote
        simpa using this
  · rintro ⟨hne, hpos, hkind⟩
    have hall : m.notes.filter (·.kind.Legible) = m.notes :=
      List.filter_eq_self.mpr fun note hnote => by simpa using hkind note hnote
    rw [if_pos hpos] at hsignature
    rw [hall, if_neg (by simpa using hne), hsignature]
    rfl

theorem faults_readLine_measureChars {m : Measure} (h : m.Legible) :
    (readLine (measureChars m)).faults = [] := by
  obtain ⟨signature, column, body, hread, hwords, hsignature⟩ := readLine_measureChars m
  have htokens : (tokens column body).map (·.chars) = noteWords m.notes := by
    rw [map_chars_tokens, hwords]
  have heven : (tokens column body).length % 2 = 0 := by
    rw [length_tokens, hwords, length_noteWords]
    omega
  -- the signature is good, the words come in pairs, and every pair is good
  rw [if_pos h.2.1] at hsignature
  rw [hread, hsignature]
  unfold readBody LineReading.faults dangling?
  simp only [heven, if_true, faultsOf_readPairs_printed htokens h.2.2]
  rfl

end TextScore.Notation

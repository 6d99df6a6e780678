import Mathlib
import TextScore.Edit
import TextScore.Proofs.Notation.Pointing
import TextScore.Proofs.Notation.RoundTrip

/-!
# Extension — a line that is written on

What is written behind a blank at the end of a line is read by itself: the words in front of it stay
what they are, and so do their pairs if none is left over.  So a note appended to a printed document
is read as a last pair of its last line.  If the note can be written it is read back; if not, the
old document is read, and the place of the pair is reported.
-/

namespace TextScore.Notation

open TextScore.Text

/-! ## 1. Words behind a blank -/

theorem tokens_append_blank {blank : Char} (hblank : isBlank blank = true) (first : ℕ)
    (a b : List Char) :
    tokens first (a ++ blank :: b) = tokens first a ++ tokens (first + a.length + 1) b := by
  -- the first two characters decide whether a word starts, ends or goes on
  induction a generalizing first with
  | nil => exact tokens_cons_blank hblank first b
  | cons c rest ih =>
    have ih := ih (first + 1)
    have hlength : first + 1 + rest.length + 1 = first + (c :: rest).length + 1 := by
      rw [List.length_cons]
      omega
    rw [hlength] at ih
    by_cases hc : isBlank c = true
    · rw [List.cons_append, tokens_cons_blank hc, tokens_cons_blank hc, ih]
    · have hc' : isBlank c = false := by simpa using hc
      cases rest with
      | nil =>
        rw [List.singleton_append, tokens_before_blank hc' hblank, tokens_singleton hc',
          tokens_cons_blank hblank]
        rfl
      | cons next rest =>
        rw [List.cons_append] at ih
        rw [List.cons_append, List.cons_append]
        by_cases hnext : isBlank next = true
        · rw [tokens_before_blank hc' hnext, tokens_before_blank hc' hnext, ih, List.cons_append]
        · have hnext' : isBlank next = false := by simpa using hnext
          obtain ⟨token, later, hlater⟩ := exists_tokens_of_visible hnext' rest (first + 1)
          rw [hlater, List.cons_append] at ih
          rw [tokens_before_visible hc' hnext' hlater, tokens_before_visible hc' hnext' ih,
            List.cons_append]

theorem tokens_of_visible {word : List Char} (hne : word ≠ []) (hword : ∀ c ∈ word, isBlank c = false)
    (first : ℕ) : tokens first word = [⟨word, first⟩] := by
  obtain ⟨c, rest, rfl⟩ := List.exists_cons_of_ne_nil hne
  have hc : isBlank c = false := hword c List.mem_cons_self
  have hwords := map_chars_tokens first (c :: rest)
  rw [words_of_visible hne hword] at hwords
  obtain ⟨token, htoken, hchars⟩ := List.map_eq_singleton_iff.mp hwords
  rw [htoken, ← hchars, ← column_of_tokens_visible hc htoken]

theorem tokens_pairChars (note : Note) (first : ℕ) :
    ∃ column, tokens first (pairChars note) =
      [⟨note.kind.token, first⟩, ⟨[note.duration.code], column⟩] := by
  refine ⟨first + note.kind.token.length + 1, ?_⟩
  have hcode : ∀ c ∈ [note.duration.code], isBlank c = false := by
    rw [List.forall_mem_singleton]
    exact (visible_code note.duration).1
  unfold pairChars
  rw [tokens_append_blank (by decide),
    tokens_of_visible (kind_token_ne_nil _) fun c hc => (visible_of_mem_kind_token hc).1,
    tokens_of_visible (List.cons_ne_nil _ _) hcode]
  rfl

theorem bar_not_mem_pairChars (note : Note) : '|' ∉ ' ' :: pairChars note := by
  intro hmem
  unfold pairChars at hmem
  simp only [List.mem_cons, List.mem_append, List.not_mem_nil, or_false] at hmem
  rcases hmem with hmem | hmem | hmem | hmem
  · cases hmem
  · exact (visible_of_mem_kind_token hmem).2 rfl
  · cases hmem
  · exact (visible_code note.duration).2 hmem.symm

/-! ## 2. One more pair -/

theorem notesOf_append (pairs later : List (Except LocatedFault (NoteKind × Duration))) :
    notesOf (pairs ++ later) = notesOf pairs ++ notesOf later :=
  List.filterMap_append

theorem faultsOf_append (pairs later : List (Except LocatedFault (NoteKind × Duration))) :
    faultsOf (pairs ++ later) = faultsOf pairs ++ faultsOf later :=
  List.filterMap_append

/-- The fault of a pair whose pitch cannot be written, where it can be written none. -/
def pairFaults (note : Note) (column : ℕ) : List LocatedFault :=
  if note.kind.Legible then [] else [⟨column, .invalidPitch note.kind.token none⟩]

/-- The note as it is read, if it can be written. -/
def pairNotes (note : Note) : List (NoteKind × Duration) :=
  if note.kind.Legible then [(note.kind, note.duration)] else []

theorem readPairs_pairChars (note : Note) (first : ℕ) :
    notesOf (readPairs (tokens first (pairChars note))) = pairNotes note ∧
      faultsOf (readPairs (tokens first (pairChars note))) = pairFaults note first := by
  obtain ⟨column, htokens⟩ := tokens_pairChars note first
  rw [htokens]
  show notesOf [readPair _ _] = _ ∧ faultsOf [readPair _ _] = _
  rw [readPair_printed rfl rfl]
  unfold pairNotes pairFaults
  by_cases hlegible : note.kind.Legible
  · rw [if_pos hlegible, if_pos hlegible, if_pos hlegible]
    exact ⟨rfl, rfl⟩
  · rw [if_neg hlegible, if_neg hlegible, if_neg hlegible]
    exact ⟨rfl, rfl⟩

/-- What is read of a line with a pair more. -/
def LineReading.withPair (reading : LineReading) (note : Note) (column : ℕ) : LineReading :=
  { reading with
    tokenCount := reading.tokenCount + 2
    bodyFaults := pairFaults note column
    notes := reading.notes ++ pairNotes note }

/-- Behind words that are all in good pairs, one more pair is read by itself. -/
theorem readBody_append_pair (signature : TimeSignature × Option LocatedFault) (column : ℕ)
    {body : List Char} (hclean : (readBody signature column body).bodyFaults = []) (note : Note) :
    readBody signature column (body ++ ' ' :: pairChars note) =
      (readBody signature column body).withPair note (column + body.length + 1) := by
  obtain ⟨hdangling, hpairs⟩ := List.append_eq_nil_iff.mp hclean
  -- a word left over would have been reported, so the new pair starts at an even place
  have heven : (tokens column body).length % 2 = 0 := by
    by_contra hodd
    have hne : tokens column body ≠ [] := by
      intro hnil
      rw [hnil] at hodd
      exact hodd rfl
    unfold dangling? at hdangling
    rw [if_neg hodd, List.getLast?_eq_some_getLast hne] at hdangling
    cases hdangling
  obtain ⟨hnotes, hfaults⟩ := readPairs_pairChars note (column + body.length + 1)
  obtain ⟨second, htokens⟩ := tokens_pairChars note (column + body.length + 1)
  have hlength : (tokens column body ++ tokens (column + body.length + 1) (pairChars note)).length =
      (tokens column body).length + 2 := by
    rw [htokens, List.length_append]
    rfl
  have hnone : dangling? (tokens column body ++
      tokens (column + body.length + 1) (pairChars note)) = none := by
    unfold dangling?
    rw [hlength, if_pos (by omega)]
  unfold readBody LineReading.withPair
  simp only [tokens_append_blank (show isBlank ' ' = true by decide), readPairs_append heven, hlength,
    hnone, notesOf_append, faultsOf_append, hnotes, hfaults, hpairs, Option.toList_none,
    List.nil_append]

/-- At the end of a line without faults, one more pair is read by itself, whether the line has a bar
or not. -/
theorem readLine_append_pair {line : List Char} (hclean : (readLine line).faults = []) (note : Note) :
    readLine (line ++ ' ' :: pairChars note) = (readLine line).withPair note (line.length + 2) := by
  have hbody : (readLine line).bodyFaults = [] := (List.append_eq_nil_iff.mp hclean).2
  -- the pair brings no bar, so the line is split as before: not at all, or at its first bar
  unfold readLine at hbody ⊢
  rw [splitAtFirst?_append_right (bar_not_mem_pairChars note)]
  cases hsplit : splitAtFirst? '|' line with
  | none =>
    have hcolumn : 1 + line.length + 1 = line.length + 2 := by omega
    rw [hsplit] at hbody
    exact hcolumn ▸ readBody_append_pair _ _ hbody note
  | some cut =>
    obtain ⟨before, behind⟩ := cut
    obtain ⟨-, rfl⟩ := splitAtFirst?_eq_some_iff.mp hsplit
    have hcolumn : before.length + 2 + behind.length + 1 = (before ++ '|' :: behind).length + 2 := by
      rw [List.length_append, List.length_cons]
      omega
    rw [hsplit] at hbody
    exact hcolumn ▸ readBody_append_pair _ _ hbody note

/-! ## 3. A note appended to a printed document -/

theorem intercalate_append_singleton {α : Type} (separator : List α) {parts : List (List α)}
    (hne : parts ≠ []) (part : List α) :
    separator.intercalate (parts ++ [part]) = separator.intercalate parts ++ separator ++ part := by
  induction parts with
  | nil => exact absurd rfl hne
  | cons first rest ih =>
    by_cases hrest : rest = []
    · rw [hrest, List.singleton_append, List.intercalate_cons_cons, List.intercalate_singleton,
        List.intercalate_singleton]
    · have hlonger : rest ++ [part] ≠ [] := List.append_ne_nil_of_left_ne_nil hrest _
      rw [List.cons_append, List.intercalate_cons_of_ne_nil hlonger, ih hrest,
        List.intercalate_cons_of_ne_nil hrest]
      simp only [List.append_assoc]

/-- The last measure of the document is printed as before, with a pair more. -/
theorem measureChars_append_singleton {m : Measure} (hne : m.notes ≠ []) (note : Note) :
    measureChars { m with notes := m.notes ++ [note] } = measureChars m ++ ' ' :: pairChars note := by
  have hnotes : notesChars (m.notes ++ [note]) = notesChars m.notes ++ ' ' :: pairChars note := by
    unfold notesChars
    rw [List.map_append, List.map_singleton, intercalate_append_singleton _ (by simpa using hne),
      List.append_assoc, List.singleton_append]
  unfold measureChars
  rw [hnotes]
  split
  · rfl
  · simp only [List.append_assoc, List.cons_append]

/-- The last line of a legible document with a note more is read as before, and the pair by itself. -/
theorem readLine_measureChars_append {m : Measure} (h : m.Legible) (note : Note) :
    readLine (measureChars { m with notes := m.notes ++ [note] }) =
      (readLine (measureChars m)).withPair note ((measureChars m).length + 2) := by
  rw [measureChars_append_singleton h.1, readLine_append_pair (faults_readLine_measureChars h)]

theorem lineContent?_measureChars_append {m : Measure} (h : m.Legible) (note : Note) :
    lineContent? (measureChars { m with notes := m.notes ++ [note] }) =
      some (m.content.1, m.content.2 ++ pairNotes note) := by
  -- what is read of the line as it was
  have hcontent := (lineContent?_measureChars_iff m).mpr h
  unfold lineContent? at hcontent
  split at hcontent
  · cases hcontent
  next hne =>
    have hcontent := Option.some.inj hcontent
    unfold lineContent?
    rw [readLine_measureChars_append h]
    unfold LineReading.withPair
    rw [if_neg (List.append_ne_nil_of_left_ne_nil hne _), ← hcontent]

section

variable {doc : Document} {front : List Measure} {last : Measure}

theorem measures_append_of_concat (hmeasures : doc.measures = front ++ [last]) (note : Note) :
    (doc.append note).measures = front ++ [{ last with notes := last.notes ++ [note] }] := by
  unfold Document.append
  rw [hmeasures, List.getLast?_concat, List.dropLast_concat]

theorem content_append_of_concat (hmeasures : doc.measures = front ++ [last]) (note : Note) :
    (doc.append note).content =
      front.map Measure.content ++
        [(last.content.1, last.content.2 ++ [(note.kind, note.duration)])] := by
  unfold Document.content
  rw [measures_append_of_concat hmeasures, List.map_append, List.map_singleton]
  unfold Measure.content
  rw [List.map_append, List.map_singleton]

/-- All that was there is drafted again, and the note with it if it can be written. -/
theorem map_content_outline_print_append (h : doc.Legible) (hmeasures : doc.measures = front ++ [last])
    (note : Note) :
    (outline (print (doc.append note))).map Draft.content =
      front.map Measure.content ++ [(last.content.1, last.content.2 ++ pairNotes note)] := by
  have hfront : ∀ m ∈ front, lineContent? (measureChars m) = some m.content := by
    intro m hm
    rw [lineContent?_measureChars_iff]
    exact h m (hmeasures ▸ List.mem_append_left _ hm)
  have hlast : last.Legible := h last (hmeasures ▸ List.mem_append_right _ (List.mem_singleton_self _))
  rw [map_content_outline_print, measures_append_of_concat hmeasures, List.filterMap_append,
    List.filterMap_eq_map_iff_forall_eq_some.mpr hfront]
  simp only [List.filterMap_cons, lineContent?_measureChars_append hlast, List.filterMap_nil]

theorem lineFaults_print_append (h : doc.Legible) (hmeasures : doc.measures = front ++ [last])
    (note : Note) :
    lineFaults (print (doc.append note)) =
      (pairFaults note ((measureChars last).length + 2)).map fun located =>
        located.fault.atPlace doc.measures.length (some located.column) := by
  -- every line is legible, so that only the pair at the end of the last one can be at fault
  have hfront : ∀ m ∈ front, m.Legible := fun m hm =>
    h m (hmeasures ▸ List.mem_append_left _ hm)
  have hlast : last.Legible := h last (hmeasures ▸ List.mem_append_right _ (List.mem_singleton_self _))
  have hsignature : (readLine (measureChars last)).signatureFault = none := by
    have hclean := (List.append_eq_nil_iff.mp (faults_readLine_measureChars hlast)).1
    exact Option.toList_eq_nil_iff.mp hclean
  have hne : (doc.append note).measures ≠ [] := by
    rw [measures_append_of_concat hmeasures]
    exact List.append_ne_nil_of_right_ne_nil _ (List.cons_ne_nil _ _)
  have hnumber : 1 + (front.map measureChars).length = doc.measures.length := by
    rw [hmeasures, List.length_map, List.length_append, List.length_singleton, Nat.add_comm]
  rw [lineFaults_print_eq_flatMap hne, measures_append_of_concat hmeasures, List.map_append,
    numberFrom_append, List.flatMap_append, flatMap_diagnostics_of_legible hfront, hnumber,
    List.nil_append, List.map_singleton]
  show (readNumbered ⟨doc.measures.length, _⟩).diagnostics ++ [] = _
  rw [List.append_nil]
  unfold readNumbered NumberedReading.diagnostics
  rw [readLine_measureChars_append hlast]
  unfold LineReading.withPair LineReading.faults
  rw [hsignature]
  rfl

end

section

variable {σ : Type} [IdSource σ] (ids : σ) (options : ParseOptions) {doc : Document}

/-- What the text of an extended document is read as.  A note that can be written comes back with
the document; of any other note the text shows only where it was. -/
theorem parseFrom_print_append (h : doc.Legible) (hne : doc.measures ≠ []) (note : Note) :
    (parseFrom ids options (print (doc.append note))).1.document.map Document.content =
        some (if note.kind.Legible then (doc.append note).content else doc.content) ∧
      (parseFrom ids options (print (doc.append note))).1.diagnostics =
        if note.kind.Legible then []
        else [(Fault.invalidPitch note.kind.token none).atPlace doc.measures.length
          (some ((measureChars (doc.measures.getLast hne)).length + 2))] := by
  have hmeasures : doc.measures = doc.measures.dropLast ++ [doc.measures.getLast hne] :=
    (List.dropLast_append_getLast hne).symm
  have hdrafts := map_content_outline_print_append h hmeasures note
  have hextended := content_append_of_concat hmeasures note
  have hcontent : doc.content = doc.measures.dropLast.map Measure.content ++
      [(doc.measures.getLast hne).content] := by
    unfold Document.content
    conv_lhs => rw [hmeasures, List.map_append, List.map_singleton]
  have houtline : outline (print (doc.append note)) ≠ [] := by
    intro hnil
    rw [hnil, List.map_nil] at hdrafts
    exact List.append_ne_nil_of_right_ne_nil _ (List.cons_ne_nil _ _) hdrafts.symm
  have hnotes : ¬(allBlank (print (doc.append note)).toList = false ∧
      outline (print (doc.append note)) = [] ∧ lineFaults (print (doc.append note)) = []) :=
    fun hnone => houtline hnone.2.1
  rw [parseFrom_document, if_pos (Or.inr houtline), parseFrom_diagnostics, if_neg hnotes,
    lineFaults_print_append h hmeasures, hdrafts]
  unfold pairNotes pairFaults
  by_cases hlegible : note.kind.Legible
  · rw [if_pos hlegible, if_pos hlegible, if_pos hlegible, if_pos hlegible, hextended]
    exact ⟨rfl, rfl⟩
  · rw [if_neg hlegible, if_neg hlegible, if_neg hlegible, if_neg hlegible, hcontent, List.append_nil]
    exact ⟨rfl, rfl⟩

end

end TextScore.Notation

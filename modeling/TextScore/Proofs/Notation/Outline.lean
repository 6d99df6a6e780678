import Mathlib
import TextScore.Notation.Parse
import TextScore.Proofs.Notation.Words

/-!
# Outline — what a text yields, whatever its notes are called

The measures of a text are drafted line by line, and its faults are found line by line; names, title
and tempo come afterwards.  Each part of a parse is a function of the drafts and faults alone, so two
parses of one text differ in names, title and tempo only.
-/

namespace TextScore

/-- Two outputs that differ in names, title and tempo only. -/
structure ParseOutput.Matches (a b : ParseOutput) : Prop where
  content : a.document.map Document.content = b.document.map Document.content
  diagnostics : a.diagnostics = b.diagnostics
  warnings : a.warnings = b.warnings
  measureLines : a.measureLines = b.measureLines

namespace Notation

open TextScore.Text

/-! ## 1. One line -/

section

variable (note : NoteKind × Duration) (fault : LocatedFault)
  (pairs : List (Except LocatedFault (NoteKind × Duration)))

@[simp] theorem notesOf_cons_ok : notesOf (.ok note :: pairs) = note :: notesOf pairs := rfl

@[simp] theorem notesOf_cons_error : notesOf (.error fault :: pairs) = notesOf pairs := rfl

@[simp] theorem faultsOf_cons_ok : faultsOf (.ok note :: pairs) = faultsOf pairs := rfl

@[simp] theorem faultsOf_cons_error :
    faultsOf (.error fault :: pairs) = fault :: faultsOf pairs := rfl

end

theorem readPairs_of_no_pair {toks : List Token}
    (h : ∀ symbol duration rest, toks = symbol :: duration :: rest → False) :
    readPairs toks = [] := by
  unfold readPairs
  split
  next symbol duration rest => exact absurd rfl (h symbol duration rest)
  next => rfl

/-- What a line says, with its number. -/
def readNumbered (line : SourceLine) : NumberedReading :=
  ⟨line.number, readLine line.chars⟩

/-- The signature and the notes of a line, if it has a note. -/
def lineContent? (line : List Char) : Option (TimeSignature × List (NoteKind × Duration)) :=
  if (readLine line).notes = [] then none else some ((readLine line).signature, (readLine line).notes)

def Draft.content (draft : Draft) : TimeSignature × List (NoteKind × Duration) :=
  (draft.signature, draft.notes)

theorem draft?_readNumbered (line : SourceLine) :
    (readNumbered line).draft?.map Draft.content = lineContent? line.chars := by
  unfold NumberedReading.draft? lineContent? readNumbered
  simp only [List.isEmpty_iff]
  split <;> rfl

theorem mem_draft?_iff {line : SourceLine} {draft : Draft} :
    draft ∈ (readNumbered line).draft? ↔ (readLine line.chars).notes ≠ [] ∧
      draft = ⟨line.number, (readLine line.chars).signature, (readLine line.chars).notes⟩ := by
  unfold NumberedReading.draft? readNumbered
  simp only [List.isEmpty_iff]
  split
  next hnotes => exact iff_of_false nofun fun h => h.1 hnotes
  next hnotes => rw [Option.mem_some, eq_comm, and_iff_right hnotes]

theorem line_of_mem_draft? {line : SourceLine} {draft : Draft}
    (h : draft ∈ (readNumbered line).draft?) : draft.line = line.number := by
  rw [(mem_draft?_iff.mp h).2]

/-- A blank line has neither notes nor faults. -/
theorem readLine_of_allBlank {line : List Char} (h : allBlank line = true) :
    (readLine line).notes = [] ∧ (readLine line).faults = [] := by
  have hbar : '|' ∉ line := fun hmem => by
    have := allBlank_iff.mp h _ hmem
    simp [isBlank] at this
  have hsplit : splitAtFirst? '|' line = none := by
    unfold splitAtFirst?
    rw [if_neg hbar]
  unfold readLine
  rw [hsplit]
  simp only [readBody, tokens_of_allBlank h]
  exact ⟨rfl, rfl⟩

/-! ## 2. All lines -/

/-- The drafts of a text, in order. -/
def outline (text : String) : List Draft :=
  drafts (readings text.toList)

/-- The faults of the lines of a text, in order. -/
def lineFaults (text : String) : List Diagnostic :=
  (readings text.toList).flatMap (·.diagnostics)

theorem outline_eq_filterMap (text : String) :
    outline text =
      (numberFrom 1 (lines text.toList)).filterMap fun line => (readNumbered line).draft? := by
  unfold outline drafts readings contentLines
  rw [List.filterMap_map, List.filterMap_filter]
  apply List.filterMap_congr
  intro line _
  -- only a blank line is filtered out, and it has no draft
  simp only [Function.comp_apply, Bool.not_eq_true']
  split
  next => rfl
  next h =>
    have hblank : allBlank line.chars = true := by simpa using h
    simp [readNumbered, NumberedReading.draft?, (readLine_of_allBlank hblank).1]

theorem lineFaults_eq_flatMap (text : String) :
    lineFaults text =
      (numberFrom 1 (lines text.toList)).flatMap fun line => (readNumbered line).diagnostics := by
  unfold lineFaults readings contentLines
  rw [List.flatMap_map]
  generalize numberFrom 1 (lines text.toList) = numbered
  -- only blank lines are filtered out, and they have no faults
  induction numbered with
  | nil => rfl
  | cons line rest ih =>
    rw [List.filter_cons, List.flatMap_cons]
    split
    next =>
      rw [List.flatMap_cons, ih]
      rfl
    next hblank =>
      have hnone : (readNumbered line).diagnostics = [] := by
        unfold NumberedReading.diagnostics readNumbered
        rw [(readLine_of_allBlank (by simpa using hblank)).2]
        rfl
      rw [hnone, ih, List.nil_append]

theorem map_content_outline (text : String) :
    (outline text).map Draft.content = (lines text.toList).filterMap lineContent? := by
  rw [outline_eq_filterMap, List.map_filterMap]
  conv_rhs => rw [← map_chars_numberFrom 1 (lines text.toList), List.filterMap_map]
  apply List.filterMap_congr
  intro line _
  exact draft?_readNumbered line

theorem readings_eq_nil_iff (text : List Char) : readings text = [] ↔ allBlank text = true := by
  unfold readings
  rw [List.map_eq_nil_iff, contentLines_eq_nil_iff]

theorem outline_of_allBlank {text : String} (h : allBlank text.toList = true) :
    outline text = [] := by
  unfold outline
  rw [(readings_eq_nil_iff _).mpr h]
  rfl

theorem lineFaults_of_allBlank {text : String} (h : allBlank text.toList = true) :
    lineFaults text = [] := by
  unfold lineFaults
  rw [(readings_eq_nil_iff _).mpr h]
  rfl

/-! ## 3. Names -/

section

variable {σ : Type} [IdSource σ]

theorem nameNotes_content (ids : σ) (notes : List (NoteKind × Duration)) :
    (nameNotes ids notes).1.map (fun note => (note.kind, note.duration)) = notes := by
  -- each draw leaves another source, so the induction is over all of them
  induction notes generalizing ids with
  | nil => rfl
  | cons note rest ih =>
    simp only [nameNotes, List.map_cons]
    rw [ih]

theorem nameMeasures_content (ids : σ) (ds : List Draft) :
    (nameMeasures ids ds).1.map Measure.content = ds.map Draft.content := by
  induction ds generalizing ids with
  | nil => rfl
  | cons draft rest ih =>
    simp only [nameMeasures, List.map_cons, Measure.content]
    rw [ih, nameNotes_content]
    rfl

/-! ## 4. The parts of a parse -/

variable (ids : σ) (options : ParseOptions) (text : String)

theorem parseFrom_of_allBlank (h : allBlank text.toList = true) :
    (parseFrom ids options text).1 =
      ⟨some ⟨(IdSource.nextDocument ids).1, options.title.getD untitled,
        options.tempo.getD .standard, []⟩, [], [], []⟩ := by
  unfold parseFrom
  rw [if_pos h]

theorem parseFrom_of_outline_eq_nil (h : allBlank text.toList = false) (ho : outline text = []) :
    (parseFrom ids options text).1 =
      ⟨none, if lineFaults text = [] then [noNotesDiagnostic (readings text.toList)]
        else lineFaults text, [], []⟩ := by
  unfold outline at ho
  unfold parseFrom
  rw [if_neg (by simp [h])]
  simp only [ho, List.isEmpty_nil, if_true, List.isEmpty_iff]
  rfl

theorem parseFrom_of_outline_ne_nil (ho : outline text ≠ []) :
    (parseFrom ids options text).1 =
      ⟨some ⟨(IdSource.nextDocument (nameMeasures ids (outline text)).2).1,
        options.title.getD untitled, options.tempo.getD .standard,
        (nameMeasures ids (outline text)).1⟩, lineFaults text, warningsFrom 1 (outline text),
        (outline text).map (·.line)⟩ := by
  have h : ¬ allBlank text.toList = true := fun h => ho (outline_of_allBlank h)
  unfold outline at ho
  unfold parseFrom
  rw [if_neg h]
  simp only [List.isEmpty_iff, if_neg ho]
  rfl

/-- When there is no document to make: the text is not blank, and no line has a note. -/
theorem nothing_drafted_iff :
    ¬ (allBlank text.toList = true ∨ outline text ≠ []) ↔
      allBlank text.toList = false ∧ outline text = [] := by
  rw [not_or, not_not, Bool.not_eq_true]

/-- There are two outcomes: a document of what was drafted, which is nothing for a blank text, or
diagnostics alone. -/
theorem parseFrom_cases :
    ((allBlank text.toList = true ∨ outline text ≠ []) ∧ (parseFrom ids options text).1 =
        ⟨some ⟨(IdSource.nextDocument (nameMeasures ids (outline text)).2).1,
          options.title.getD untitled, options.tempo.getD .standard,
          (nameMeasures ids (outline text)).1⟩, lineFaults text, warningsFrom 1 (outline text),
          (outline text).map (·.line)⟩) ∨
      (allBlank text.toList = false ∧ outline text = []) ∧ (parseFrom ids options text).1 =
        ⟨none, if lineFaults text = [] then [noNotesDiagnostic (readings text.toList)]
          else lineFaults text, [], []⟩ := by
  by_cases hblank : allBlank text.toList = true
  · refine Or.inl ⟨Or.inl hblank, ?_⟩
    rw [parseFrom_of_allBlank ids options text hblank, outline_of_allBlank hblank,
      lineFaults_of_allBlank hblank]
    rfl
  rw [Bool.not_eq_true] at hblank
  by_cases ho : outline text = []
  · exact Or.inr ⟨⟨hblank, ho⟩, parseFrom_of_outline_eq_nil ids options text hblank ho⟩
  · exact Or.inl ⟨Or.inr ho, parseFrom_of_outline_ne_nil ids options text ho⟩

/-- A text is read through the readings of its lines alone. -/
theorem parseFrom_congr {text other : String} (h : readings other.toList = readings text.toList) :
    parseFrom ids options other = parseFrom ids options text := by
  -- a text is blank if there is nothing in it to read
  have hblank : allBlank other.toList = allBlank text.toList := by
    rw [Bool.eq_iff_iff, ← readings_eq_nil_iff, ← readings_eq_nil_iff, h]
  unfold parseFrom
  rw [hblank, h]

theorem document_eq_none_iff_outline :
    (parseFrom ids options text).1.document = none ↔
      allBlank text.toList = false ∧ outline text = [] := by
  rcases parseFrom_cases ids options text with ⟨h, hread⟩ | ⟨h, hread⟩
  · rw [hread]
    exact iff_of_false nofun fun hnothing => (nothing_drafted_iff text).mpr hnothing h
  · rw [hread]
    exact iff_of_true rfl h

/-- The document of a text, seen as content. -/
theorem parseFrom_document :
    (parseFrom ids options text).1.document.map Document.content =
      if allBlank text.toList = true ∨ outline text ≠ [] then
        some ((outline text).map Draft.content)
      else none := by
  rcases parseFrom_cases ids options text with ⟨h, hread⟩ | ⟨h, hread⟩
  · rw [hread, if_pos h, ← nameMeasures_content ids]
    rfl
  · rw [hread, if_neg ((nothing_drafted_iff text).mpr h)]
    rfl

/-- The measures of a document say what was drafted. -/
theorem content_of_document {doc : Document}
    (hdoc : (parseFrom ids options text).1.document = some doc) :
    doc.content = (outline text).map Draft.content := by
  have hdocument := parseFrom_document ids options text
  rw [hdoc, Option.map_some] at hdocument
  split at hdocument
  · exact Option.some.inj hdocument
  · cases hdocument

theorem parseFrom_title_tempo {doc : Document}
    (hdoc : (parseFrom ids options text).1.document = some doc) :
    doc.title = options.title.getD untitled ∧ doc.tempo = options.tempo.getD .standard := by
  rcases parseFrom_cases ids options text with ⟨-, hread⟩ | ⟨-, hread⟩
  · rw [hread] at hdoc
    cases hdoc
    exact ⟨rfl, rfl⟩
  · rw [hread] at hdoc
    cases hdoc

theorem parseFrom_diagnostics :
    (parseFrom ids options text).1.diagnostics =
      if allBlank text.toList = false ∧ outline text = [] ∧ lineFaults text = [] then
        [noNotesDiagnostic (readings text.toList)]
      else lineFaults text := by
  rcases parseFrom_cases ids options text with ⟨h, hread⟩ | ⟨⟨hblank, ho⟩, hread⟩
  · rw [hread, if_neg]
    rintro ⟨hblank, ho, -⟩
    exact (nothing_drafted_iff text).mpr ⟨hblank, ho⟩ h
  · rw [hread]
    simp only [hblank, ho, true_and]

theorem parseFrom_warnings :
    (parseFrom ids options text).1.warnings = warningsFrom 1 (outline text) := by
  rcases parseFrom_cases ids options text with ⟨-, hread⟩ | ⟨⟨-, ho⟩, hread⟩
  · rw [hread]
  · rw [hread, ho]
    rfl

theorem parseFrom_measureLines :
    (parseFrom ids options text).1.measureLines = (outline text).map (·.line) := by
  rcases parseFrom_cases ids options text with ⟨-, hread⟩ | ⟨⟨-, ho⟩, hread⟩
  · rw [hread]
  · rw [hread, ho]
    rfl

/-- Two readings of one text differ in names, title and tempo only. -/
theorem parseFrom_matches {τ : Type} [IdSource τ] (ids' : τ) (options' : ParseOptions) :
    (parseFrom ids options text).1.Matches (parseFrom ids' options' text).1 where
  content := by rw [parseFrom_document, parseFrom_document]
  diagnostics := by rw [parseFrom_diagnostics, parseFrom_diagnostics]
  warnings := by rw [parseFrom_warnings, parseFrom_warnings]
  measureLines := by rw [parseFrom_measureLines, parseFrom_measureLines]

end

end Notation

end TextScore

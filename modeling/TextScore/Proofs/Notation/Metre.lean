import Mathlib
import TextScore.Proofs.Notation.Locality
import TextScore.Proofs.Notation.SourceOrder

/-!
# Metre — the signature of a measure is what stands before its bar

Before the first bar of a line two numbers are spelled around a slash: runs of digits of any length,
with blanks around either, each worth a number from 1 to 4294967295.  Then the measure of the line
has just these numbers, and nothing is reported of them.  Before any other bar something else is
meant; this is reported once, and the measure is in common time.
-/

namespace TextScore

namespace Notation

open TextScore.Text

/-! ## 1. Numbers -/

/-- What a run of digits is worth: its last digit counts ones, and the one before it tens. -/
def worth (digits : List Char) : ℕ :=
  Nat.ofDigits 10 (digits.reverse.map fun c => c.toNat - '0'.toNat)

/-- A run of ASCII digits that is worth `n`, a positive number of 32 bits. -/
structure SpellsPart (digits : List Char) (n : ℕ) : Prop where
  ne_nil : digits ≠ []
  digit : ∀ c ∈ digits, '0' ≤ c ∧ c ≤ '9'
  value : worth digits = n
  positive : 1 ≤ n
  le : n ≤ 4294967295

/-- Two numbers are spelled around a slash, with blanks around either. -/
inductive SpellsMetre : List Char → ℕ → ℕ → Prop
  | intro {a beats b c beatType d : List Char} {m n : ℕ}
      (ha : allBlank a = true) (hb : allBlank b = true)
      (hc : allBlank c = true) (hd : allBlank d = true)
      (hbeats : SpellsPart beats m) (hbeatType : SpellsPart beatType n) :
      SpellsMetre (a ++ beats ++ b ++ '/' :: (c ++ beatType ++ d)) m n

theorem worth_eq (digits : List Char) : worth digits = Nat.ofDigitChars 10 digits 0 := by
  -- each digit more at the end makes the others worth ten times as much
  induction digits using List.reverseRecOn with
  | nil => rfl
  | append_singleton digits c ih =>
    have hworth : worth (digits ++ [c]) = c.toNat - '0'.toNat + 10 * worth digits := by
      unfold worth
      rw [List.reverse_concat, List.map_cons, Nat.ofDigits_cons]
    rw [hworth, ih, Nat.ofDigitChars_append, Nat.ofDigitChars_cons, Nat.ofDigitChars_nil,
      Nat.add_comm]

theorem isDigit_iff_le {c : Char} : c.isDigit = true ↔ '0' ≤ c ∧ c ≤ '9' := by
  rw [Char.isDigit_iff_toNat, Char.le_def, Char.le_def, UInt32.le_iff_toNat_le,
    UInt32.le_iff_toNat_le]
  rfl

theorem spellsPart_toNat_iff {digits : List Char} {n : UInt32} :
    SpellsPart digits n.toNat ↔ WritesPositive digits n := by
  have hsize : n.toNat < 4294967296 := n.toNat_lt
  have hpos : 0 < n ↔ 1 ≤ n.toNat := UInt32.lt_iff_toNat_lt
  constructor
  · rintro ⟨hne, hdigit, hvalue, hpositive, -⟩
    exact ⟨hne, fun c hc => isDigit_iff_le.mpr (hdigit c hc), by rw [← worth_eq, hvalue],
      hpos.mpr hpositive⟩
  · rintro ⟨hne, hdigit, hvalue, hpositive⟩
    exact ⟨hne, fun c hc => isDigit_iff_le.mp (hdigit c hc), by rw [worth_eq, hvalue],
      hpos.mp hpositive, by omega⟩

theorem SpellsPart.exists_toNat {digits : List Char} {n : ℕ} (h : SpellsPart digits n) :
    ∃ word : UInt32, word.toNat = n :=
  ⟨UInt32.ofNat n, UInt32.toNat_ofNat_of_lt' (Nat.lt_succ_of_le h.le)⟩

/-! ## 2. What stands before a bar -/

theorem spellsMetre_iff {text : List Char} {m n : ℕ} :
    SpellsMetre text m n ↔
      ∃ ts : TimeSignature, WritesSignature text ts ∧ ts.beats.toNat = m ∧ ts.beatType.toNat = n := by
  constructor
  · rintro ⟨ha, hb, hc, hd, hbeats, hbeatType⟩
    -- both numbers are small enough to be those of words
    obtain ⟨beats, rfl⟩ := hbeats.exists_toNat
    obtain ⟨beatType, rfl⟩ := hbeatType.exists_toNat
    exact ⟨⟨beats, beatType⟩, .intro ha hb hc hd (spellsPart_toNat_iff.mp hbeats)
      (spellsPart_toNat_iff.mp hbeatType), rfl, rfl⟩
  · rintro ⟨ts, ⟨ha, hb, hc, hd, hbeats, hbeatType⟩, rfl, rfl⟩
    exact .intro ha hb hc hd (spellsPart_toNat_iff.mpr hbeats) (spellsPart_toNat_iff.mpr hbeatType)

theorem readPrefix_of_spellsMetre {before : List Char} {m n : ℕ} (h : SpellsMetre before m n) :
    (readPrefix before).2 = none ∧ (readPrefix before).1.beats.toNat = m ∧
      (readPrefix before).1.beatType.toNat = n := by
  obtain ⟨ts, hwrites, hbeats, hbeatType⟩ := spellsMetre_iff.mp h
  unfold readPrefix
  rw [readSignature?_of_writesSignature hwrites]
  exact ⟨rfl, hbeats, hbeatType⟩

theorem readPrefix_of_not_spellsMetre {before : List Char}
    (h : ¬∃ m n, SpellsMetre before m n) :
    readPrefix before =
      (.common, some ⟨visibleColumn before, .malformedTimeSignature (trim before)⟩) := by
  -- reading accepts no more than what is written as a signature
  have hread : readSignature? before = none := by
    rw [readSignature?_eq_none_iff]
    intro ts hwrites
    exact h ⟨_, _, spellsMetre_iff.mpr ⟨ts, hwrites, rfl, rfl⟩⟩
  unfold readPrefix
  rw [hread]

section

variable {line before body : List Char}

theorem signature_readLine (h : splitAtFirst? '|' line = some (before, body)) :
    (readLine line).signature = (readPrefix before).1 := by
  unfold readLine
  rw [h]
  rfl

theorem notes_readLine (h : splitAtFirst? '|' line = some (before, body)) :
    (readLine line).notes = notesOf (readPairs (tokens (before.length + 2) body)) := by
  unfold readLine
  rw [h]
  rfl

/-- A signature is only told of before a bar, and nothing else is. -/
theorem filter_faults_readLine (h : splitAtFirst? '|' line = some (before, body)) :
    (readLine line).faults.filter (·.fault.kind = .malformedTimeSignature) =
      (readPrefix before).2.toList := by
  unfold readLine
  rw [h]
  show ((readPrefix before).2.toList ++
    ((dangling? (tokens (before.length + 2) body)).toList ++
      faultsOf (readPairs (tokens (before.length + 2) body)))).filter _ = _
  -- the body has faults of three other kinds
  rw [List.filter_append, List.filter_eq_self.mpr, List.filter_eq_nil_iff.mpr, List.append_nil]
  · intro located hmem
    rcases List.mem_append.mp hmem with hmem | hmem
    · simp [kind_of_mem_dangling? (Option.mem_toList.mp hmem)]
    · rcases kind_of_mem_faultsOf hmem with hkind | hkind <;> simp [hkind]
  · intro located hmem
    exact decide_eq_true (kind_of_mem_readPrefix (Option.mem_toList.mp hmem))

end

end Notation

/-! ## 3. What is told of a line -/

/-- The diagnostics on the signature of the line with this number. -/
def ParseOutput.signatureFaults (output : ParseOutput) (number : ℕ) : List Diagnostic :=
  output.diagnostics.filter fun d => d.line = number ∧ d.kind = .malformedTimeSignature

/-- The measure of the document that stands on the line with this number. -/
def ParseOutput.MeasureOn (output : ParseOutput) (number : ℕ) (m : Measure) : Prop :=
  ∃ (doc : Document) (i : ℕ), output.document = some doc ∧ doc.measures[i]? = some m ∧
    output.measureLines[i]? = some number

namespace Notation

open TextScore.Text

variable {σ : Type} [IdSource σ] (ids : σ) (options : ParseOptions) {text : String}

section

variable {line : SourceLine}

theorem signatureFaults_parseFrom (hline : line ∈ contentLines text.toList) :
    (parseFrom ids options text).1.signatureFaults line.number =
      ((readLine line.chars).faults.filter (·.fault.kind = .malformedTimeSignature)).map
        (·.onLine line.number) := by
  have hlosses : (parseFrom ids options text).1.signatureFaults line.number =
      (parseFrom ids options text).1.losses.filter fun d =>
        d.line = line.number ∧ d.kind = .malformedTimeSignature := by
    unfold ParseOutput.signatureFaults ParseOutput.losses
    rw [List.filter_filter]
    apply List.filter_congr
    intro d _
    -- a text without notes is told of in another way
    by_cases hkind : d.kind = .malformedTimeSignature
    · simp [hkind]
    · simp [hkind]
  rw [hlosses, losses_parseFrom, lineFaults_eq_reportLines, filter_reportLines,
    reportLines_of_line (contentLines_increasing text.toList) hline, LineFaults.reported_ofLine]
  · congr 1
    apply List.filter_congr
    intro located _
    exact decide_eq_decide.mpr (and_iff_right rfl)
  · intro other _ hother
    apply List.filter_eq_nil_iff.mpr
    intro located _ hmem
    exact hother (of_decide_eq_true hmem).1

/-- The measure on a line is the draft of the line. -/
theorem exists_draft_of_measureOn (hline : line ∈ contentLines text.toList) {m : Measure}
    (hm : (parseFrom ids options text).1.MeasureOn line.number m) :
    ∃ draft ∈ (readNumbered line).draft?, m.signature = draft.signature := by
  obtain ⟨doc, i, hdoc, hmeasure, hnumber⟩ := hm
  rw [parseFrom_measureLines, List.getElem?_map] at hnumber
  obtain ⟨draft, hdraft, hdraftLine⟩ := Option.map_eq_some_iff.mp hnumber
  obtain ⟨m', hm', hsignature⟩ := getElem?_measures ids options text hdoc hdraft
  rw [hmeasure] at hm'
  obtain rfl : m = m' := Option.some.inj hm'
  -- the measure was drafted on a line of this number, and there is only one
  have hmem : draft ∈ drafts (readings text.toList) := List.mem_of_getElem? hdraft
  obtain ⟨r, hr, hdrafted⟩ := List.mem_filterMap.mp hmem
  obtain ⟨line', hline', rfl⟩ := List.mem_map.mp hr
  obtain rfl : line' = line := line_eq_of_number_eq (contentLines_increasing text.toList) hline'
    hline ((line_of_mem_draft? hdrafted).symm.trans hdraftLine)
  exact ⟨draft, hdrafted, hsignature⟩

theorem signature_of_measureOn (hline : line ∈ contentLines text.toList) {m : Measure}
    (hm : (parseFrom ids options text).1.MeasureOn line.number m) :
    m.signature = (readLine line.chars).signature := by
  obtain ⟨draft, hdraft, hsignature⟩ := exists_draft_of_measureOn ids options hline hm
  rw [hsignature, (mem_draft?_iff.mp hdraft).2]

theorem exists_measureOn_iff (hline : line ∈ contentLines text.toList) :
    (∃ m, (parseFrom ids options text).1.MeasureOn line.number m) ↔
      (readLine line.chars).notes ≠ [] := by
  constructor
  · -- a line without notes is not drafted
    rintro ⟨m, hm⟩
    obtain ⟨draft, hdraft, -⟩ := exists_draft_of_measureOn ids options hline hm
    exact (mem_draft?_iff.mp hdraft).1
  · intro hnotes
    have hmem : ⟨line.number, (readLine line.chars).signature, (readLine line.chars).notes⟩ ∈
        outline text :=
      List.mem_filterMap.mpr
        ⟨readNumbered line, List.mem_map_of_mem hline, mem_draft?_iff.mpr ⟨hnotes, rfl⟩⟩
    obtain ⟨i, hdraft⟩ := List.mem_iff_getElem?.mp hmem
    obtain ⟨doc, m, hdoc, hm, -⟩ := exists_measure_of_draft ids options text hdraft
    refine ⟨m, doc, i, hdoc, hm, ?_⟩
    rw [parseFrom_measureLines, List.getElem?_map, hdraft]
    rfl

end

/-! ## 4. Lines with a bar -/

/-- The signature of a line is what is spelled before its bar, and nothing is told of it; or it is
common time, and this is told once. -/
structure Measured (before body : List Char) (number : ℕ) (output : ParseOutput) : Prop where
  /-- Only what stands behind the bar decides whether there is a measure. -/
  measure_iff : (∃ m, output.MeasureOn number m) ↔
    notesOf (readPairs (tokens (before.length + 2) body)) ≠ []
  signed_iff : ∀ m beats beatType, output.MeasureOn number m →
    (output.signatureFaults number = [] ∧ m.signature.beats.toNat = beats ∧
        m.signature.beatType.toNat = beatType ↔
      SpellsMetre before beats beatType)
  silent_iff : output.signatureFaults number = [] ↔
    ∃ beats beatType, SpellsMetre before beats beatType
  otherwise : (¬∃ beats beatType, SpellsMetre before beats beatType) →
    output.signatureFaults number =
        [(Fault.malformedTimeSignature (trim before)).atPlace number
          (some (visibleColumn before))] ∧
      ∀ m, output.MeasureOn number m → m.signature = .common

/-- It is enough that what the text before the bar is read as is what the line gets. -/
theorem measured_of_readPrefix {before body : List Char} {number : ℕ} {output : ParseOutput}
    (hmeasure : (∃ m, output.MeasureOn number m) ↔
      notesOf (readPairs (tokens (before.length + 2) body)) ≠ [])
    (hfaults : output.signatureFaults number =
      (readPrefix before).2.toList.map (·.onLine number))
    (hsignature : ∀ m, output.MeasureOn number m → m.signature = (readPrefix before).1) :
    Measured before body number output := by
  by_cases hspelled : ∃ beats beatType, SpellsMetre before beats beatType
  · obtain ⟨beats, beatType, h⟩ := hspelled
    obtain ⟨hnone, hbeats, hbeatType⟩ := readPrefix_of_spellsMetre h
    rw [hnone] at hfaults
    constructor
    case measure_iff => exact hmeasure
    case signed_iff =>
      intro m _ _ hm
      rw [hsignature m hm]
      constructor
      · rintro ⟨-, rfl, rfl⟩
        rwa [hbeats, hbeatType]
      · intro h'
        exact ⟨hfaults, (readPrefix_of_spellsMetre h').2⟩
    case silent_iff => exact iff_of_true hfaults ⟨beats, beatType, h⟩
    case otherwise => exact fun hnot => absurd ⟨beats, beatType, h⟩ hnot
  · have hread := readPrefix_of_not_spellsMetre hspelled
    rw [hread] at hfaults
    have htold : output.signatureFaults number ≠ [] := by
      rw [hfaults]
      exact List.cons_ne_nil _ _
    constructor
    case measure_iff => exact hmeasure
    case signed_iff =>
      exact fun m beats beatType _ =>
        iff_of_false (fun h => htold h.1) fun h => hspelled ⟨beats, beatType, h⟩
    case silent_iff => exact iff_of_false htold hspelled
    case otherwise => exact fun _ => ⟨hfaults, fun m hm => by rw [hsignature m hm, hread]⟩

/-- Whatever stands before the first bar of a line, the measure of the line has the signature that is
spelled there, or common time and a diagnostic if none is. -/
theorem bar_line_is_measured {i : ℕ} {before body : List Char}
    (hline : (lines text.toList)[i]? = some (before ++ '|' :: body)) (hbar : '|' ∉ before) :
    Measured before body (i + 1) (parseFrom ids options text).1 := by
  have hsplit : splitAtFirst? '|' (before ++ '|' :: body) = some (before, body) :=
    splitAtFirst?_append hbar body
  have hmem : ⟨i + 1, before ++ '|' :: body⟩ ∈ contentLines text.toList := by
    refine List.mem_filter.mpr ⟨?_, ?_⟩
    · rw [Nat.add_comm]
      exact mem_numberFrom hline
    · -- the bar is visible
      simp [allBlank, isBlank]
  apply measured_of_readPrefix
  · rw [← notes_readLine hsplit]
    exact exists_measureOn_iff ids options hmem
  · rw [signatureFaults_parseFrom ids options hmem, filter_faults_readLine hsplit]
  · intro m hm
    rw [signature_of_measureOn ids options hmem hm, signature_readLine hsplit]

/-- The largest number there is behind a small one with zeros in front, and a number beyond it. -/
def wideMetres : String := "\t007/4294967295\u2003| C4 w\n4294967296/4 | D4 w"

theorem wideMetres_are_measured :
    let output := parse .none wideMetres
    (lines wideMetres.toList)[0]? =
        some ("\t007/4294967295\u2003".toList ++ '|' :: " C4 w".toList) ∧
      (lines wideMetres.toList)[1]? = some ("4294967296/4 ".toList ++ '|' :: " D4 w".toList) ∧
      (∃ m, output.MeasureOn 1 m ∧ output.signatureFaults 1 = [] ∧ m.signature.beats.toNat = 7 ∧
        m.signature.beatType.toNat = 4294967295) ∧
      ∃ m, output.MeasureOn 2 m ∧ m.signature = .common ∧
        (output.signatureFaults 2).map (·.column) = [some 1] := by
  intro output
  have hfirst : (lines wideMetres.toList)[0]? =
      some ("\t007/4294967295\u2003".toList ++ '|' :: " C4 w".toList) := by decide
  have hsecond : (lines wideMetres.toList)[1]? =
      some ("4294967296/4 ".toList ++ '|' :: " D4 w".toList) := by decide
  have hbeats : SpellsPart "007".toList 7 := ⟨by decide, by simp, rfl, by decide, by decide⟩
  have hbeatType : SpellsPart "4294967295".toList 4294967295 :=
    ⟨by decide, by simp, rfl, by decide, by decide⟩
  have hspelled : SpellsMetre "\t007/4294967295\u2003".toList 7 4294967295 :=
    show SpellsMetre ("\t".toList ++ "007".toList ++ [] ++
      '/' :: ([] ++ "4294967295".toList ++ "\u2003".toList)) _ _ from
        .intro rfl rfl rfl rfl hbeats hbeatType
  have hunspelled : ¬∃ beats beatType, SpellsMetre "4294967296/4 ".toList beats beatType := by
    rintro ⟨beats, beatType, h⟩
    obtain ⟨ts, hwrites, -⟩ := spellsMetre_iff.mp h
    exact readSignature?_eq_none_iff.mp (by decide) ts hwrites
  have hupper := bar_line_is_measured IdSupply.fresh .none hfirst (by decide)
  have hlower := bar_line_is_measured IdSupply.fresh .none hsecond (by decide)
  -- both lines have a note behind the bar
  obtain ⟨first, hon⟩ := hupper.measure_iff.mpr (by decide)
  obtain ⟨second, hon'⟩ := hlower.measure_iff.mpr (by decide)
  obtain ⟨hfault, hcommon⟩ := hlower.otherwise hunspelled
  refine ⟨hfirst, hsecond, ⟨first, hon, ?_⟩, second, hon', hcommon second hon', ?_⟩
  · exact (hupper.signed_iff first 7 4294967295 hon).mpr hspelled
  · exact congrArg (List.map (·.column)) hfault

end Notation

end TextScore

import Mathlib
import TextScore.Proofs.Pitch.Written

/-!
# Spelling — which words are pitches

The words that are read as pitches are those that match `[A-Ga-g](#|b)?[0-9]`, all of them and from
end to end.  A `b` is a letter in front and a flat behind a letter, never both.  Printing what was
read gives the word back with its letter in upper case, and a printed pitch is such a word as long
as its octave has one digit.
-/

namespace TextScore

/-! ## 1. Letters and digits -/

theorem Letter.exists_ofChar?_iff {c : Char} :
    (∃ l, Letter.ofChar? c = some l) ↔ c ∈ "ABCDEFGabcdefg".toList := by
  constructor
  · rintro ⟨l, h⟩
    unfold Letter.ofChar? at h
    split at h <;> first | decide | cases h
  · intro hc
    simp only [String.reduceToList, List.mem_cons, List.not_mem_nil, or_false] at hc
    rcases hc with rfl | rfl | rfl | rfl | rfl | rfl | rfl | rfl | rfl | rfl | rfl | rfl | rfl | rfl
      <;> exact ⟨_, rfl⟩

/-- A letter is printed in upper case, in whichever case it was read. -/
theorem Letter.toChar_of_ofChar? {c : Char} {l : Letter} (h : Letter.ofChar? c = some l) :
    l.toChar = c.toUpper := by
  unfold Letter.ofChar? at h
  split at h <;> cases h <;> rfl

namespace Pitch

theorem exists_octaveOfDigit?_iff {c : Char} :
    (∃ octave, octaveOfDigit? c = some octave) ↔ c ∈ "0123456789".toList := by
  constructor
  · rintro ⟨octave, h⟩
    -- what is read is an ASCII digit, one of ten
    obtain ⟨n, hn, rfl⟩ := exists_digitChar (isDigit_of_octaveOfDigit? h)
    interval_cases n <;> decide
  · intro hc
    simp only [String.reduceToList, List.mem_cons, List.not_mem_nil, or_false] at hc
    rcases hc with rfl | rfl | rfl | rfl | rfl | rfl | rfl | rfl | rfl | rfl <;> exact ⟨_, rfl⟩

/-! ## 2. The expression -/

/-- Any one of these characters. -/
def oneOf (cs : List Char) : RegularExpression Char :=
  cs.foldr (fun c others => .char c + others) 0

def accidentals : RegularExpression Char :=
  1 + oneOf "#b".toList

/-- `[A-Ga-g](#|b)?[0-9]` -/
def spelling : RegularExpression Char :=
  oneOf "ABCDEFGabcdefg".toList * accidentals * oneOf "0123456789".toList

theorem mem_oneOf {cs word : List Char} : word ∈ (oneOf cs).matches' ↔ ∃ c ∈ cs, word = [c] := by
  induction cs with
  | nil => exact iff_of_false (Language.notMem_zero word) (by simp)
  | cons c rest ih =>
    have hchar : word ∈ (RegularExpression.char c).matches' ↔ word = [c] := Iff.rfl
    -- the expression is a sum, with one summand for each character
    show word ∈ (.char c + oneOf rest : RegularExpression Char).matches' ↔ _
    rw [RegularExpression.matches'_add, Language.mem_add, hchar, ih, List.exists_mem_cons_iff]

theorem mem_accidentals {word : List Char} :
    word ∈ accidentals.matches' ↔ ∃ accidental : Accidental, word = accidental.symbol := by
  unfold accidentals
  rw [RegularExpression.matches'_add, Language.mem_add, RegularExpression.matches'_epsilon,
    Language.mem_one, mem_oneOf]
  constructor
  · rintro (rfl | ⟨c, hc, rfl⟩)
    · exact ⟨.natural, rfl⟩
    · simp only [String.reduceToList, List.mem_cons, List.not_mem_nil, or_false] at hc
      rcases hc with rfl | rfl
      · exact ⟨.sharp, rfl⟩
      · exact ⟨.flat, rfl⟩
  · rintro ⟨accidental, rfl⟩
    -- a natural has no sign, so it is the empty word
    cases accidental with
    | natural => exact Or.inl rfl
    | sharp => exact Or.inr ⟨'#', by decide, rfl⟩
    | flat => exact Or.inr ⟨'b', by decide, rfl⟩

theorem mem_spelling {word : List Char} :
    word ∈ spelling.matches' ↔
      ∃ letter ∈ "ABCDEFGabcdefg".toList, ∃ accidental : Accidental,
        ∃ octave ∈ "0123456789".toList, word = letter :: (accidental.symbol ++ [octave]) := by
  unfold spelling
  simp only [RegularExpression.matches'_mul, Language.mem_mul, mem_oneOf, mem_accidentals]
  constructor
  · rintro ⟨-, ⟨-, ⟨letter, hletter, rfl⟩, -, ⟨accidental, rfl⟩, rfl⟩, -, ⟨octave, hoctave, rfl⟩, rfl⟩
    exact ⟨letter, hletter, accidental, octave, hoctave, rfl⟩
  · rintro ⟨letter, hletter, accidental, octave, hoctave, rfl⟩
    exact ⟨_, ⟨_, ⟨letter, hletter, rfl⟩, _, ⟨accidental, rfl⟩, rfl⟩, _, ⟨octave, hoctave, rfl⟩,
      rfl⟩

/-! ## 3. Words that are pitches -/

theorem exists_ofToken?_iff {word : List Char} :
    (∃ p, ofToken? word = some p) ↔ word ∈ spelling.matches' := by
  rw [mem_spelling]
  constructor
  · rintro ⟨p, h⟩
    obtain ⟨letter, octave, hword, hletter, hoctave⟩ := ofToken?_eq_some_iff.mp h
    exact ⟨letter, Letter.exists_ofChar?_iff.mp ⟨_, hletter⟩, p.accidental, octave,
      exists_octaveOfDigit?_iff.mp ⟨_, hoctave⟩, hword⟩
  · rintro ⟨letter, hletter, accidental, octave, hoctave, hword⟩
    obtain ⟨l, hl⟩ := Letter.exists_ofChar?_iff.mpr hletter
    obtain ⟨o, ho⟩ := exists_octaveOfDigit?_iff.mpr hoctave
    exact ⟨⟨l, accidental, o⟩, ofToken?_eq_some_iff.mpr ⟨letter, octave, hword, hl, ho⟩⟩

theorem token_of_ofToken? {word : List Char} {p : Pitch} (h : ofToken? word = some p) :
    p.token = word.modifyHead Char.toUpper := by
  obtain ⟨letter, octave, rfl, hletter, hoctave⟩ := ofToken?_eq_some_iff.mp h
  unfold token
  rw [Letter.toChar_of_ofChar? hletter, octaveOfDigit?_eq_some_iff.mp hoctave, List.modifyHead_cons]

/-- A word is read as a pitch if and only if it matches the expression, and the pitch is printed as
the word with its letter in upper case.  What is printed of any pitch is read again, as this pitch,
if and only if its octave lies from 0 to 9. -/
theorem ofToken?_reads_what_is_spelled :
    (∀ text : String, ((∃ p, ofToken? text.toList = some p) ↔ text.toList ∈ spelling.matches') ∧
        ∀ p, ofToken? text.toList = some p →
          p.name.toList = text.toList.modifyHead Char.toUpper) ∧
      ∀ p : Pitch, ofToken? p.name.toList =
        if 0 ≤ p.octave.toInt ∧ p.octave.toInt ≤ 9 then some p else none := by
  refine ⟨fun text => ⟨exists_ofToken?_iff, fun p hp => ?_⟩, ofToken?_name⟩
  unfold name
  rw [String.toList_ofList, token_of_ofToken? hp]

-- a letter and a flat that are the same character, and words that end too early or too late
example : spelling.rmatch "bb4".toList = true ∧ ofToken? "bb4".toList = some ⟨.B, .flat, 4⟩ := by
  decide

example : ["", "b", "bb", "b44", "b##4", "h4", "b4 "].all
    (fun word => !spelling.rmatch word.toList && (ofToken? word.toList).isNone) = true := by
  decide

end Pitch

end TextScore

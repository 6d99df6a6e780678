import Mathlib
import TextScore.Pitch.Basic
import TextScore.Proofs.Text.Lines

/-!
# Token — which printed pitches can be read

A pitch is printed with its octave in full, but a token holds one digit.  The printed form of a
pitch reads back exactly when its octave lies between 0 and 9.
-/

namespace TextScore

theorem Letter.ofChar?_toChar (l : Letter) : Letter.ofChar? l.toChar = some l := by
  cases l <;> rfl

namespace Pitch

/-- The octave has one digit. -/
def Legible (p : Pitch) : Prop :=
  0 ≤ p.octave.toInt ∧ p.octave.toInt ≤ 9

instance (p : Pitch) : Decidable p.Legible :=
  inferInstanceAs (Decidable (_ ∧ _))

/-! ## 1. The characters of a token -/

theorem octaveOfDigit?_digitChar {n : Nat} (hn : n < 10) :
    octaveOfDigit? n.digitChar = some (Int32.ofNat n) := by
  interval_cases n <;> decide

theorem isDigit_or_of_mem_octaveChars {octave : Int} {c : Char} (hc : c ∈ octaveChars octave) :
    c.isDigit = true ∨ c = '-' := by
  have hdigit : ∀ n : Nat, c ∈ Nat.toDigits 10 n → c.isDigit = true := fun _ h =>
    Nat.isDigit_of_mem_toDigits (by decide) (by decide) h
  unfold octaveChars at hc
  split at hc
  · rcases List.mem_cons.mp hc with hc | hc
    · exact Or.inr hc
    · exact Or.inl (hdigit _ hc)
  · exact Or.inl (hdigit _ hc)

theorem one_lt_length_octaveChars {octave : Int} (h : ¬ (0 ≤ octave ∧ octave ≤ 9)) :
    1 < (octaveChars octave).length := by
  have hpos : 0 < (Nat.toDigits 10 octave.natAbs).length := Nat.length_toDigits_pos
  unfold octaveChars
  split
  next => rw [List.length_cons]; omega
  next hneg =>
    -- ten and above
    have hlong : ¬ (Nat.toDigits 10 octave.natAbs).length ≤ 1 := by
      rw [Nat.length_toDigits_le_iff (by decide) (by decide)]
      omega
    omega

theorem octaveChars_of_legible {octave : Int} (h : 0 ≤ octave ∧ octave ≤ 9) :
    octaveChars octave = [octave.toNat.digitChar] := by
  unfold octaveChars
  rw [if_neg (by omega), Nat.toDigits_of_lt_base (by omega),
    show octave.natAbs = octave.toNat by omega]

theorem exists_digitChar {c : Char} (h : c.isDigit = true) : ∃ n < 10, c = n.digitChar := by
  have hlo : 48 ≤ c.toNat := (Char.isDigit_iff_toNat.mp h).1
  have hhi : c.toNat ≤ 57 := (Char.isDigit_iff_toNat.mp h).2
  refine ⟨c.toNat - 48, by omega, ?_⟩
  apply Char.toNat_inj.mp
  rw [Nat.toNat_digitChar_of_lt_ten (by omega)]
  omega

theorem isDigit_of_octaveOfDigit? {c : Char} {octave : Int32} (h : octaveOfDigit? c = some octave) :
    c.isDigit = true := by
  unfold octaveOfDigit? at h
  split at h
  next hdigit => exact hdigit
  next => cases h

/-- A digit is read as the octave that is printed as this digit. -/
theorem octaveOfDigit?_eq_some_iff {c : Char} {octave : Int32} :
    octaveOfDigit? c = some octave ↔ octaveChars octave.toInt = [c] := by
  constructor
  · intro h
    obtain ⟨n, hn, rfl⟩ := exists_digitChar (isDigit_of_octaveOfDigit? h)
    rw [octaveOfDigit?_digitChar hn] at h
    have hvalue : octave.toInt = n := by
      rw [← Option.some.inj h, Int32.toInt_ofNat_of_lt (by omega)]
    rw [octaveChars_of_legible (by omega), hvalue, Int.toNat_natCast]
  · intro h
    -- two characters and more are no digit
    have hone : 0 ≤ octave.toInt ∧ octave.toInt ≤ 9 := by
      by_contra hlong
      have hlength := one_lt_length_octaveChars hlong
      rw [h] at hlength
      exact lt_irrefl 1 hlength
    rw [octaveChars_of_legible hone, List.cons.injEq] at h
    rw [← h.1, octaveOfDigit?_digitChar (by omega)]
    congr 1
    apply Int32.toInt_inj.mp
    rw [Int32.toInt_ofNat_of_lt (by omega)]
    omega

/-! ## 2. The parts of a token -/

theorem assemble?_eq_some_iff {letter octave : Char} {accidental : Accidental} {p : Pitch} :
    assemble? letter accidental octave = some p ↔ p.accidental = accidental ∧
      Letter.ofChar? letter = some p.letter ∧ octaveOfDigit? octave = some p.octave := by
  unfold assemble?
  simp only [Option.bind_eq_some_iff, Option.map_eq_some_iff]
  constructor
  · rintro ⟨l, hl, o, ho, rfl⟩
    exact ⟨rfl, hl, ho⟩
  · rintro ⟨rfl, hl, ho⟩
    exact ⟨p.letter, hl, p.octave, ho, rfl⟩

/-- What is read has a letter, an accidental and a digit, each of which is read. -/
theorem ofToken?_eq_some_iff {cs : List Char} {p : Pitch} :
    ofToken? cs = some p ↔
      ∃ letter octave, cs = letter :: (p.accidental.symbol ++ [octave]) ∧
        Letter.ofChar? letter = some p.letter ∧ octaveOfDigit? octave = some p.octave := by
  constructor
  · intro h
    have hparts : ∀ {letter octave : Char} {accidental : Accidental},
        assemble? letter accidental octave = some p →
        cs = letter :: (accidental.symbol ++ [octave]) →
        ∃ letter octave, cs = letter :: (p.accidental.symbol ++ [octave]) ∧
          Letter.ofChar? letter = some p.letter ∧ octaveOfDigit? octave = some p.octave := by
      intro letter octave accidental hassemble hcs
      obtain ⟨rfl, hread⟩ := assemble?_eq_some_iff.mp hassemble
      exact ⟨letter, octave, hcs, hread⟩
    -- a token without an accidental and a token with either
    unfold ofToken? at h
    split at h
    · exact hparts h rfl
    · exact hparts h rfl
    · exact hparts h rfl
    · cases h
  · rintro ⟨letter, octave, rfl, hread⟩
    have h : assemble? letter p.accidental octave = some p := assemble?_eq_some_iff.mpr ⟨rfl, hread⟩
    rw [← h]
    cases p.accidental <;> rfl

/-! ## 3. Reading a printed pitch -/

theorem ofToken?_eq_none_of_length {cs : List Char} (h : 3 < cs.length) : ofToken? cs = none := by
  unfold ofToken?
  split
  · simp at h
  · simp at h
  · simp at h
  · rfl

theorem ofToken?_eq_none_of_middle {letter middle last : Char} (hsharp : middle ≠ '#')
    (hflat : middle ≠ 'b') : ofToken? [letter, middle, last] = none := by
  unfold ofToken?
  split <;> simp_all

theorem ofToken?_token_of_legible {p : Pitch} (h : p.Legible) : ofToken? p.token = some p := by
  have hoctave := octaveChars_of_legible h
  refine ofToken?_eq_some_iff.mpr ⟨p.letter.toChar, p.octave.toInt.toNat.digitChar, ?_,
    Letter.ofChar?_toChar p.letter, octaveOfDigit?_eq_some_iff.mpr hoctave⟩
  rw [token, hoctave]

theorem ofToken?_token_of_not_legible {p : Pitch} (h : ¬ p.Legible) :
    ofToken? p.token = none := by
  have hlong := one_lt_length_octaveChars h
  have hhead : ∀ c ∈ octaveChars p.octave.toInt, c ≠ '#' ∧ c ≠ 'b' := by
    intro c hc
    rcases isDigit_or_of_mem_octaveChars hc with hdigit | rfl
    · constructor <;> rintro rfl <;> simp at hdigit
    · decide
  unfold token
  cases hacc : p.accidental with
  | natural =>
    -- with two octave characters the token has the length of one with an accidental
    match hchars : octaveChars p.octave.toInt, hlong with
    | [first, second], _ =>
      have hfirst := hhead first (by rw [hchars]; simp)
      exact ofToken?_eq_none_of_middle hfirst.1 hfirst.2
    | first :: second :: third :: rest, _ =>
      exact ofToken?_eq_none_of_length (by simp [Accidental.symbol])
  | sharp => exact ofToken?_eq_none_of_length (by simp [Accidental.symbol]; omega)
  | flat => exact ofToken?_eq_none_of_length (by simp [Accidental.symbol]; omega)

theorem legible_of_ofToken? {cs : List Char} {p : Pitch} (h : ofToken? cs = some p) :
    p.Legible := by
  obtain ⟨-, octave, -, -, hoctave⟩ := ofToken?_eq_some_iff.mp h
  by_contra hlong
  have hlength := one_lt_length_octaveChars hlong
  rw [octaveOfDigit?_eq_some_iff.mp hoctave] at hlength
  exact lt_irrefl 1 hlength

/-- A printed pitch holds neither blanks nor bars. -/
theorem visible_of_mem_token {p : Pitch} {c : Char} (hc : c ∈ p.token) :
    Text.isBlank c = false ∧ c ≠ '|' := by
  unfold token at hc
  rcases List.mem_cons.mp hc with rfl | hc
  · cases p.letter <;> decide
  rcases List.mem_append.mp hc with hc | hc
  · cases hacc : p.accidental <;> rw [hacc] at hc <;> simp [Accidental.symbol] at hc <;>
      subst hc <;> decide
  · rcases isDigit_or_of_mem_octaveChars hc with hdigit | rfl
    · refine ⟨Text.isBlank_eq_false_of_isDigit hdigit, ?_⟩
      rintro rfl
      simp at hdigit
    · decide

end Pitch

end TextScore

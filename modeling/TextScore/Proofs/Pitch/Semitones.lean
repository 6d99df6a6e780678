import Mathlib
import TextScore.Proofs.Pitch.Degree

/-!
# Semitones — how far a step is heard

The scale has seven places to the octave and the keyboard twelve keys, and from one letter to the
next it is one key or two.  The keys rise with the places all the same, by twelve with every seven,
below C0 as well as above.  A MIDI number is such a key, kept between 0 and 127.  Both ends are
reached long before an octave stops at the end of its range, so that is never heard.
-/

namespace TextScore

/-! ## 1. The keys of the scale -/

theorem Letter.semitone_lt (l : Letter) : l.semitone < 12 := by
  cases l <;> decide

theorem Letter.ofIndex_add_octaves (place octaves : Int) :
    ofIndex (place + 7 * octaves) = ofIndex place := by
  unfold ofIndex
  rw [Int.add_mul_emod_self_left]

theorem Accidental.offset_bounds (a : Accidental) : -1 ≤ a.offset ∧ a.offset ≤ 1 := by
  cases a <;> decide

namespace Pitch

/-- The semitones from C0 to the letter at a degree. -/
def semitonesAt (degree : Int) : Int :=
  degree / 7 * 12 + (Letter.ofIndex degree).semitone

theorem semitonesAt_add_octaves (degree octaves : Int) :
    semitonesAt (degree + 7 * octaves) = semitonesAt degree + 12 * octaves := by
  unfold semitonesAt
  rw [Letter.ofIndex_add_octaves, Int.add_mul_ediv_left _ _ (by decide)]
  ring

theorem semitonesAt_lt_succ (degree : Int) : semitonesAt degree < semitonesAt (degree + 1) := by
  have hlo : 0 ≤ degree % 7 := Int.emod_nonneg degree (by decide)
  have hhi : degree % 7 < 7 := Int.emod_lt_of_pos degree (by decide)
  -- it is enough to look at the seven places of one octave, and from B on to the next C
  have hoctave : semitonesAt (degree % 7) < semitonesAt (degree % 7 + 1) := by
    generalize degree % 7 = place at hlo hhi
    interval_cases place <;> decide
  rw [← Int.emod_add_mul_ediv degree 7, add_right_comm, semitonesAt_add_octaves,
    semitonesAt_add_octaves]
  exact Int.add_lt_add_right hoctave _

theorem semitonesAt_strictMono : StrictMono semitonesAt :=
  strictMono_int_of_lt_succ semitonesAt_lt_succ

/-! ## 2. The ends of the keyboard -/

/-- The key closest to a number, of the keys from 0 to 127. -/
def nearestKey (number : Int) : Nat :=
  (max 0 (min 127 number)).toNat

theorem nearestKey_mono : Monotone nearestKey := by
  intro m n h
  unfold nearestKey
  omega

/-- Only at the ends do different numbers share a key. -/
theorem nearestKey_lt_nearestKey {m n : Int} (h : m < n)
    (hinside : 0 < nearestKey m ∧ nearestKey m < 127 ∨ 0 < nearestKey n ∧ nearestKey n < 127) :
    nearestKey m < nearestKey n := by
  unfold nearestKey at *
  omega

theorem nearestKey_of_inside {n : Int} (h : 0 < nearestKey n ∧ nearestKey n < 127) :
    (nearestKey n : Int) = n := by
  unfold nearestKey at *
  omega

/-- The MIDI number is not at the ends, where all pitches farther out are brought. -/
def InsideKeyboard (p : Pitch) : Prop :=
  0 < p.midiNumber ∧ p.midiNumber < 127

instance (p : Pitch) : Decidable p.InsideKeyboard :=
  inferInstanceAs (Decidable (_ ∧ _))

/-! ## 3. Words of 64 bits -/

theorem toInt_wordNumber (p : Pitch) :
    p.wordNumber.toInt = (p.octave.toInt + 1) * 12 + p.letter.semitone + p.accidental.offset := by
  have hoctave := fitsInt32_toInt p.octave
  have hsemitone := p.letter.semitone_lt
  have hoffset := p.accidental.offset_bounds
  unfold FitsInt32 at hoctave
  have hletter : (Int64.ofNat p.letter.semitone).toInt = p.letter.semitone :=
    Int64.toInt_ofNat_of_lt (by omega)
  have haccidental : (Int64.ofInt p.accidental.offset).toInt = p.accidental.offset :=
    Int64.toInt_ofInt_of_le (by omega) (by omega)
  -- twelve times an octave takes four bits more than the octave
  have hnext : (p.octave.toInt64 + 1).toInt = p.octave.toInt + 1 := by
    rw [Int64.toInt_add, Int32.toInt_toInt64, show (1 : Int64).toInt = 1 from rfl,
      Int.bmod_eq_of_le (by omega) (by omega)]
  have hkeys : ((p.octave.toInt64 + 1) * 12).toInt = (p.octave.toInt + 1) * 12 := by
    rw [Int64.toInt_mul, hnext, show (12 : Int64).toInt = 12 from rfl,
      Int.bmod_eq_of_le (by omega) (by omega)]
  have hnatural : ((p.octave.toInt64 + 1) * 12 + Int64.ofNat p.letter.semitone).toInt =
      (p.octave.toInt + 1) * 12 + p.letter.semitone := by
    rw [Int64.toInt_add, hkeys, hletter, Int.bmod_eq_of_le (by omega) (by omega)]
  unfold wordNumber
  rw [Int64.toInt_add, hnatural, haccidental, Int.bmod_eq_of_le (by omega) (by omega)]

theorem toInt_clampWord (word : Int64) :
    (clampWord word).toInt = max 0 (min 127 word.toInt) := by
  have hzero : (0 : Int64).toInt = 0 := rfl
  have hlast : (127 : Int64).toInt = 127 := rfl
  unfold clampWord
  simp only [Int64.lt_iff_toInt_lt, apply_ite Int64.toInt, hzero, hlast]
  omega

/-- Nothing is cut off, since 127 fits a byte. -/
theorem midiNumber_eq_nearestKey (p : Pitch) :
    p.midiNumber =
      nearestKey ((p.octave.toInt + 1) * 12 + p.letter.semitone + p.accidental.offset) := by
  have hclamped := toInt_clampWord p.wordNumber
  have hpositive : 0 ≤ clampWord p.wordNumber := by
    rw [Int64.le_iff_toInt_le, Int64.toInt_zero]
    omega
  unfold midiNumber nearestKey
  rw [UInt64.toNat_toUInt8, Int64.toNat_toUInt64_of_le hpositive, ← toInt_wordNumber, ← hclamped]
  show (clampWord p.wordNumber).toInt.toNat % 2 ^ 8 = (clampWord p.wordNumber).toInt.toNat
  omega

/-! ## 4. The number after a step -/

/-- The number at a degree before it is brought between the ends.  C0 has the number 12. -/
def numberAt (degree : Int) (accidental : Accidental) : Int :=
  semitonesAt degree + 12 + accidental.offset

variable {p : Pitch} {a b steps : Int32} {octaves : Int}

/-- Where the octave stops, its key is beyond the ends of the keyboard. -/
theorem midiNumber_ofDegree (degree : Int) (accidental : Accidental) :
    (ofDegree degree accidental).midiNumber = nearestKey (numberAt degree accidental) := by
  have hsemitone := (Letter.ofIndex degree).semitone_lt
  have hoffset := accidental.offset_bounds
  rw [midiNumber_eq_nearestKey]
  show nearestKey (((saturateOctave (degree / 7)).toInt + 1) * 12 +
    (Letter.ofIndex degree).semitone + accidental.offset) = _
  rw [toInt_saturateOctave]
  unfold nearestKey numberAt semitonesAt
  omega

theorem midiNumber_eq (p : Pitch) : p.midiNumber = nearestKey (numberAt p.degree p.accidental) := by
  rw [← midiNumber_ofDegree, ofDegree_degree]

theorem midiNumber_step (p : Pitch) (steps : Int32) :
    (p.step steps).midiNumber = nearestKey (numberAt (p.degree + steps.toInt) p.accidental) := by
  rw [step_eq_ofDegree, midiNumber_ofDegree]

theorem numberAt_strictMono (accidental : Accidental) :
    StrictMono fun degree => numberAt degree accidental := by
  intro c d h
  have hsemitones := semitonesAt_strictMono h
  show semitonesAt c + 12 + accidental.offset < semitonesAt d + 12 + accidental.offset
  omega

theorem numberAt_add_octaves (degree octaves : Int) (accidental : Accidental) :
    numberAt (degree + 7 * octaves) accidental = numberAt degree accidental + 12 * octaves := by
  unfold numberAt
  rw [semitonesAt_add_octaves]
  ring

theorem midiNumber_step_le (h : a ≤ b) : (p.step a).midiNumber ≤ (p.step b).midiNumber := by
  have hdegree : p.degree + a.toInt ≤ p.degree + b.toInt :=
    Int.add_le_add_left (Int32.le_iff_toInt_le.mp h) _
  rw [midiNumber_step, midiNumber_step]
  exact nearestKey_mono ((numberAt_strictMono p.accidental).monotone hdegree)

theorem midiNumber_step_lt (h : a < b)
    (hinside : (p.step a).InsideKeyboard ∨ (p.step b).InsideKeyboard) :
    (p.step a).midiNumber < (p.step b).midiNumber := by
  have hdegree : p.degree + a.toInt < p.degree + b.toInt :=
    Int.add_lt_add_left (Int32.lt_iff_toInt_lt.mp h) _
  unfold InsideKeyboard at hinside
  rw [midiNumber_step, midiNumber_step] at hinside ⊢
  exact nearestKey_lt_nearestKey (numberAt_strictMono p.accidental hdegree) hinside

theorem midiNumber_step_octaves (h : steps.toInt = 7 * octaves) (hp : p.InsideKeyboard)
    (hstep : (p.step steps).InsideKeyboard) :
    ((p.step steps).midiNumber : Int) = p.midiNumber + 12 * octaves := by
  have hnumber : numberAt (p.degree + steps.toInt) p.accidental =
      numberAt p.degree p.accidental + 12 * octaves := by
    rw [h, numberAt_add_octaves]
  unfold InsideKeyboard at hp hstep
  rw [midiNumber_eq] at hp
  rw [midiNumber_step] at hstep
  -- between the ends both keys are the numbers themselves
  rw [midiNumber_step, midiNumber_eq, nearestKey_of_inside hp, nearestKey_of_inside hstep, hnumber]

/-! ## 5. Stepping and sounding -/

/-- Worked out in words of 64 bits and cut down to a byte, the MIDI number is that of the integers,
brought between the ends.  It never falls as the number of
steps grows, whether or not the octave stops on the way, and it rises if one of the two pitches is
inside the keyboard.  By 7 steps for each octave it moves by exactly 12 for each, between two pitches
inside. -/
theorem midiNumber_follows_steps (p : Pitch) :
    (p.midiNumber : Int) =
        max 0 (min 127 ((p.octave.toInt + 1) * 12 + p.letter.semitone + p.accidental.offset)) ∧
      (∀ a b : Int32, a ≤ b →
        (p.step a).midiNumber ≤ (p.step b).midiNumber ∧
          (a < b → (p.step a).InsideKeyboard ∨ (p.step b).InsideKeyboard →
            (p.step a).midiNumber < (p.step b).midiNumber)) ∧
      ∀ (steps : Int32) (octaves : Int), steps.toInt = 7 * octaves →
        p.InsideKeyboard → (p.step steps).InsideKeyboard →
          ((p.step steps).midiNumber : Int) = p.midiNumber + 12 * octaves := by
  refine ⟨?_, fun a b hab => ⟨midiNumber_step_le hab, midiNumber_step_lt⟩, ?_⟩
  · rw [midiNumber_eq_nearestKey]
    exact Int.toNat_of_nonneg (le_max_left _ _)
  · intro steps octaves hsteps hp hstep
    exact midiNumber_step_octaves hsteps hp hstep

/-- F sharp above middle C, across the end of the octave, two octaves down and off the keyboard. -/
theorem f_sharp_is_heard_moving :
    let p : Pitch := ⟨.F, .sharp, 4⟩
    let top : Int32 := 2147483647
    ((3 : Int32) ≤ 4 ∧ (3 : Int32) < 4 ∧ (p.step 3).InsideKeyboard ∧ (4 : Int32) ≤ top) ∧
      (p.step 3).midiNumber < (p.step 4).midiNumber ∧
      (p.step 4).midiNumber ≤ (p.step top).midiNumber ∧
      ((-14 : Int32).toInt = 7 * -2 ∧ p.InsideKeyboard ∧ (p.step (-14)).InsideKeyboard) ∧
      ((p.step (-14)).midiNumber : Int) = p.midiNumber + 12 * -2 ∧
      p.midiNumber = 66 ∧ (p.step 3).midiNumber = 72 ∧ (p.step 4).midiNumber = 73 ∧
      (p.step top).midiNumber = 127 ∧ (p.step (-14)).midiNumber = 42 := by
  intro p top
  obtain ⟨-, hrise, hoctaves⟩ := p.midiNumber_follows_steps
  have hnext : (3 : Int32) ≤ 4 ∧ (3 : Int32) < 4 := by decide
  have hfar : (4 : Int32) ≤ top := by decide
  have hinside : (p.step 3).InsideKeyboard := by decide
  have hdown : (-14 : Int32).toInt = 7 * -2 := by decide
  have hends : p.InsideKeyboard ∧ (p.step (-14)).InsideKeyboard := by decide
  exact ⟨⟨hnext.1, hnext.2, hinside, hfar⟩, (hrise 3 4 hnext.1).2 hnext.2 (Or.inl hinside),
    (hrise 4 top hfar).1, ⟨hdown, hends⟩, hoctaves (-14) (-2) hdown hends.1 hends.2,
    by decide, by decide, by decide, by decide, by decide⟩

end Pitch

end TextScore

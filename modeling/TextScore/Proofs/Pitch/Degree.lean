import Mathlib
import TextScore.Pitch.Nudge
import TextScore.Proofs.Pitch.Token

/-!
# Degree — stepping and nudging in exact numbers

Every pitch is the one at its degree, and a step leads to the one at the degree so many places
further: no step at all is no exception.  Only the octave of a pitch is held in 32 bits, and it
stops at their ends.  A pitch whose octave has stopped is still on its side of the nudging range, so
a nudge gives the exact answer for all octaves and all steps.
-/

namespace TextScore

/-! ## 1. Numbers of 32 bits -/

/-- The number can be held in 32 bits. -/
def FitsInt32 (n : Int) : Prop :=
  -2147483648 ≤ n ∧ n ≤ 2147483647

instance (n : Int) : Decidable (FitsInt32 n) :=
  inferInstanceAs (Decidable (_ ∧ _))

theorem fitsInt32_toInt (n : Int32) : FitsInt32 n.toInt := by
  have hlo := n.le_toInt
  have hhi := n.toInt_lt
  unfold FitsInt32
  omega

theorem toInt_add_of_fits {a b : Int32} (h : FitsInt32 (a.toInt + b.toInt)) :
    (a + b).toInt = a.toInt + b.toInt := by
  unfold FitsInt32 at h
  rw [Int32.toInt_add, Int.bmod_eq_of_le (by omega) (by omega)]

/-! ## 2. Letters and octaves -/

namespace Letter

theorem index_lt (l : Letter) : l.index < 7 := by
  cases l <;> decide

theorem index_ofIndex (i : Int) : ((ofIndex i).index : Int) = i % 7 := by
  have hlo : 0 ≤ i % 7 := Int.emod_nonneg i (by decide)
  have hhi : i % 7 < 7 := Int.emod_lt_of_pos i (by decide)
  unfold ofIndex
  -- one letter for each of the seven remainders
  generalize i % 7 = place at hlo hhi
  interval_cases place <;> rfl

theorem ofIndex_emod (i : Int) : ofIndex (i % 7) = ofIndex i := by
  unfold ofIndex
  rw [Int.emod_emod]

/-- Whole octaves do not change the letter. -/
theorem ofIndex_octaves (l : Letter) (octave : Int) : ofIndex (octave * 7 + l.index) = l := by
  have hplace : (octave * 7 + l.index) % 7 = l.index := by
    have hindex := l.index_lt
    omega
  unfold ofIndex
  rw [hplace]
  cases l <;> rfl

end Letter

namespace Pitch

theorem toInt_saturateOctave (octave : Int) :
    (saturateOctave octave).toInt = max (-2147483648) (min 2147483647 octave) := by
  unfold saturateOctave
  rw [Int32.toInt_ofInt_of_le (by omega) (by omega)]

theorem saturateOctave_toInt (octave : Int32) : saturateOctave octave.toInt = octave := by
  have hfits := fitsInt32_toInt octave
  unfold FitsInt32 at hfits
  apply Int32.toInt_inj.mp
  rw [toInt_saturateOctave]
  omega

/-! ## 3. Words of 64 bits -/

theorem toInt_seven : (7 : Int64).toInt = 7 :=
  rfl

theorem toInt_wordOctave (p : Pitch) : (p.octave.toInt64 * 7).toInt = p.octave.toInt * 7 := by
  have hoctave := fitsInt32_toInt p.octave
  unfold FitsInt32 at hoctave
  -- seven times an octave takes three bits more than the octave
  rw [Int64.toInt_mul, Int32.toInt_toInt64, toInt_seven,
    Int.bmod_eq_of_le (by omega) (by omega)]

theorem toInt_wordDegree (p : Pitch) : p.wordDegree.toInt = p.degree := by
  have hoctave := fitsInt32_toInt p.octave
  have hindex := p.letter.index_lt
  unfold FitsInt32 at hoctave
  have hword : (Int64.ofNat p.letter.index).toInt = p.letter.index :=
    Int64.toInt_ofNat_of_lt (by omega)
  unfold wordDegree degree
  rw [Int64.toInt_add, toInt_wordOctave, hword, Int.bmod_eq_of_le (by omega) (by omega)]

/-- The octave of a pitch has not stopped. -/
theorem fitsInt32_degree (p : Pitch) : FitsInt32 (p.degree / 7) := by
  have hoctave := fitsInt32_toInt p.octave
  have hindex := p.letter.index_lt
  unfold FitsInt32 degree at *
  omega

theorem toInt_wordDegree_add (p : Pitch) (steps : Int32) :
    (p.wordDegree + steps.toInt64).toInt = p.degree + steps.toInt := by
  have hdegree := fitsInt32_degree p
  have hsteps := fitsInt32_toInt steps
  unfold FitsInt32 at hdegree hsteps
  rw [Int64.toInt_add, toInt_wordDegree, Int32.toInt_toInt64,
    Int.bmod_eq_of_le (by omega) (by omega)]

section

variable (word : Int64)

/-- A remainder of words has the sign of what is divided. -/
theorem toInt_mod_seven : (word % 7).toInt =
    if 0 ≤ word.toInt ∨ 7 ∣ word.toInt then word.toInt % 7 else word.toInt % 7 - 7 := by
  rw [Int64.toInt_mod, toInt_seven, Int.tmod_eq_emod]
  split
  · exact Int.sub_zero _
  · rfl

theorem toInt_div_seven : (word / 7).toInt =
    if 0 ≤ word.toInt ∨ 7 ∣ word.toInt then word.toInt / 7 else word.toInt / 7 + 1 := by
  have hlo := word.le_toInt
  have hhi := word.toInt_lt
  have hquotient : word.toInt.tdiv 7 =
      if 0 ≤ word.toInt ∨ 7 ∣ word.toInt then word.toInt / 7 else word.toInt / 7 + 1 := by
    rw [Int.tdiv_eq_ediv]
    split
    · exact Int.add_zero _
    · rfl
  rw [Int64.toInt_div, toInt_seven, hquotient]
  exact Int.bmod_eq_of_le (by omega) (by omega)

theorem mod_seven_lt_zero_iff : word % 7 < 0 ↔ word.toInt < 0 ∧ ¬7 ∣ word.toInt := by
  rw [Int64.lt_iff_toInt_lt, toInt_mod_seven, Int64.toInt_zero]
  omega

/-- With the correction, words are divided as the integers are. -/
theorem toInt_octaveOf : (octaveOf word).toInt = word.toInt / 7 := by
  have hlo := word.le_toInt
  have hhi := word.toInt_lt
  unfold octaveOf
  split
  next hnegative =>
    rw [mod_seven_lt_zero_iff] at hnegative
    rw [Int64.toInt_sub, toInt_div_seven, show (1 : Int64).toInt = 1 from rfl, if_neg (by omega),
      Int.bmod_eq_of_le (by omega) (by omega)]
    omega
  next hnonneg =>
    rw [mod_seven_lt_zero_iff] at hnonneg
    rw [toInt_div_seven, if_pos (by omega)]

theorem toInt_placeOf : (placeOf word).toInt = word.toInt % 7 := by
  unfold placeOf
  split
  next hnegative =>
    rw [mod_seven_lt_zero_iff] at hnegative
    rw [Int64.toInt_add, toInt_mod_seven, toInt_seven, if_neg (by omega),
      Int.bmod_eq_of_le (by omega) (by omega)]
    omega
  next hnonneg =>
    rw [mod_seven_lt_zero_iff] at hnonneg
    rw [toInt_mod_seven, if_pos (by omega)]

end

/-! ## 4. The pitch at a degree -/

/-- The pitch at a place of the scale, as near to it as octaves go. -/
def ofDegree (degree : Int) (accidental : Accidental) : Pitch :=
  ⟨Letter.ofIndex degree, accidental, saturateOctave (degree / 7)⟩

variable {p : Pitch} {degree : Int} {accidental : Accidental} {steps : Int32}

theorem degree_ofDegree_saturated (degree : Int) (accidental : Accidental) :
    (ofDegree degree accidental).degree =
      max (-2147483648) (min 2147483647 (degree / 7)) * 7 + degree % 7 := by
  show (saturateOctave (degree / 7)).toInt * 7 + ((Letter.ofIndex degree).index : Int) = _
  rw [toInt_saturateOctave, Letter.index_ofIndex]

theorem degree_ofDegree (h : FitsInt32 (degree / 7)) :
    (ofDegree degree accidental).degree = degree := by
  unfold FitsInt32 at h
  rw [degree_ofDegree_saturated]
  omega

theorem ofDegree_degree (p : Pitch) : ofDegree p.degree p.accidental = p := by
  have hoctave : p.degree / 7 = p.octave.toInt := by
    have hindex := p.letter.index_lt
    unfold degree
    omega
  unfold ofDegree
  rw [hoctave, saturateOctave_toInt]
  unfold degree
  rw [Letter.ofIndex_octaves]

/-- Degree and accidental say all of a pitch. -/
theorem eq_ofDegree_iff (h : FitsInt32 (degree / 7)) (q : Pitch) :
    q = ofDegree degree accidental ↔ q.degree = degree ∧ q.accidental = accidental := by
  constructor
  · intro hq
    rw [hq]
    exact ⟨degree_ofDegree h, rfl⟩
  · intro hq
    rw [← hq.1, ← hq.2, ofDegree_degree]

theorem step_zero (p : Pitch) : p.step 0 = p := if_pos rfl

/-- The step of zero is no exception, since a pitch is the one at its own degree. -/
theorem step_eq_ofDegree (p : Pitch) (steps : Int32) :
    p.step steps = ofDegree (p.degree + steps.toInt) p.accidental := by
  by_cases hsteps : steps = 0
  · rw [hsteps, step_zero, Int32.toInt_zero, Int.add_zero, ofDegree_degree]
  · unfold step
    simp only [if_neg hsteps, toInt_placeOf, toInt_octaveOf, toInt_wordDegree_add,
      Letter.ofIndex_emod]
    rfl

/-- Stepping twice is stepping once by the sum, if the octave has not stopped in between. -/
theorem step_step {a b : Int32} (hbetween : FitsInt32 ((p.degree + a.toInt) / 7))
    (hsum : FitsInt32 (a.toInt + b.toInt)) : (p.step a).step b = p.step (a + b) := by
  have hdegree : (p.step a).degree = p.degree + a.toInt := by
    rw [step_eq_ofDegree, degree_ofDegree hbetween]
  rw [step_eq_ofDegree (p.step a), hdegree, step_eq_ofDegree p (a + b), toInt_add_of_fits hsum,
    Int.add_assoc, step_eq_ofDegree p a]
  rfl

/-! ## 5. Nudges -/

theorem clamp_eq (p : Pitch) :
    p.clamp = if p.degree < 21 then lowest else if 42 < p.degree then highest else p := by
  unfold clamp
  simp only [Int64.lt_iff_toInt_lt, toInt_wordDegree]
  rfl

/-- Where the octave stops, the degree is not exact but on the same side of the range. -/
theorem clamp_ofDegree (degree : Int) (accidental : Accidental) :
    (ofDegree degree accidental).clamp =
      if degree < 21 then lowest else if 42 < degree then highest
      else ofDegree degree accidental := by
  -- the ends of 32 bits lie far on either side of 21 and 42
  have hlowest : (ofDegree degree accidental).degree < 21 ↔ degree < 21 := by
    rw [degree_ofDegree_saturated]
    omega
  have hhighest : 42 < (ofDegree degree accidental).degree ↔ 42 < degree := by
    rw [degree_ofDegree_saturated]
    omega
  simp only [clamp_eq, hlowest, hhighest]

theorem nudge_eq (p : Pitch) (steps : Int32) :
    p.nudge steps =
      if p.degree + steps.toInt < 21 then lowest
      else if 42 < p.degree + steps.toInt then highest
      else ofDegree (p.degree + steps.toInt) p.accidental := by
  unfold nudge
  rw [step_eq_ofDegree, clamp_ofDegree]

theorem nudge_of_lt (h : p.degree + steps.toInt < 21) : p.nudge steps = lowest := by
  rw [nudge_eq, if_pos h]

theorem nudge_of_gt (h : 42 < p.degree + steps.toInt) : p.nudge steps = highest := by
  rw [nudge_eq, if_neg (by omega), if_pos h]

theorem nudge_of_between (hlo : 21 ≤ p.degree + steps.toInt) (hhi : p.degree + steps.toInt ≤ 42) :
    p.nudge steps = ofDegree (p.degree + steps.toInt) p.accidental := by
  rw [nudge_eq, if_neg (by omega), if_neg (by omega)]

theorem fitsInt32_of_between (hlo : 21 ≤ degree) (hhi : degree ≤ 42) : FitsInt32 (degree / 7) := by
  unfold FitsInt32
  omega

/-- Between the bounds a nudge loses neither the place it leads to nor the accidental. -/
theorem eq_nudge_iff (hlo : 21 ≤ p.degree + steps.toInt) (hhi : p.degree + steps.toInt ≤ 42)
    (q : Pitch) :
    q = p.nudge steps ↔ q.degree = p.degree + steps.toInt ∧ q.accidental = p.accidental := by
  rw [nudge_of_between hlo hhi]
  exact eq_ofDegree_iff (fitsInt32_of_between hlo hhi) q

/-- A pitch is in the nudging range, whatever its accidental. -/
def InRange (p : Pitch) : Prop :=
  lowest.degree ≤ p.degree ∧ p.degree ≤ highest.degree

instance (p : Pitch) : Decidable p.InRange :=
  inferInstanceAs (Decidable (_ ∧ _))

theorem inRange_iff (p : Pitch) : p.InRange ↔ 21 ≤ p.degree ∧ p.degree ≤ 42 := Iff.rfl

theorem inRange_clamp (p : Pitch) : p.clamp.InRange := by
  rw [clamp_eq]
  split
  · decide
  split
  · decide
  next hlowest hhighest => exact ⟨Int.not_lt.mp hlowest, Int.not_lt.mp hhighest⟩

theorem inRange_nudge (p : Pitch) (steps : Int32) : (p.nudge steps).InRange :=
  (p.step steps).inRange_clamp

/-! ## 6. One octave digit -/

theorem legible_iff_degree (p : Pitch) : p.Legible ↔ 0 ≤ p.degree ∧ p.degree < 70 := by
  have hindex := p.letter.index_lt
  unfold Legible degree
  omega

/-- Where the octave stops it has more digits anyway. -/
theorem legible_step_iff (p : Pitch) (steps : Int32) :
    (p.step steps).Legible ↔ 0 ≤ p.degree + steps.toInt ∧ p.degree + steps.toInt < 70 := by
  rw [legible_iff_degree, step_eq_ofDegree, degree_ofDegree_saturated]
  omega

theorem InRange.legible (h : p.InRange) : p.Legible := by
  rw [inRange_iff] at h
  rw [legible_iff_degree]
  omega

/-! ## 7. The exact answer -/

/-- Let `target` be the degree that the steps lead to, over the integers; worked out in words of 64
bits it is the same, and so are its octave and its place, with no overflow on the way.  A nudge
gives plain C3 below 21, plain C6 above 42, and between them the one pitch that has this degree and
the old accidental.  A step gives the one such pitch wherever its octave fits 32 bits, and then a
second step leads where the sum of both leads. -/
theorem nudge_is_exact (p : Pitch) (steps : Int32) :
    let target := p.octave.toInt * 7 + p.letter.index + steps.toInt
    ((p.octave.toInt64 * 7).toInt = p.octave.toInt * 7 ∧
        p.wordDegree.toInt = p.octave.toInt * 7 + p.letter.index ∧
        (p.wordDegree + steps.toInt64).toInt = target ∧
        (octaveOf (p.wordDegree + steps.toInt64)).toInt = target / 7 ∧
        (placeOf (p.wordDegree + steps.toInt64)).toInt = target % 7) ∧
      (target < 21 → p.nudge steps = ⟨.C, .natural, 3⟩) ∧
      (42 < target → p.nudge steps = ⟨.C, .natural, 6⟩) ∧
      (21 ≤ target → target ≤ 42 →
        ∀ q : Pitch, q = p.nudge steps ↔ q.degree = target ∧ q.accidental = p.accidental) ∧
      (FitsInt32 (target / 7) →
        ∀ q : Pitch, q = p.step steps ↔ q.degree = target ∧ q.accidental = p.accidental) ∧
      (FitsInt32 (target / 7) → ∀ more : Int32, FitsInt32 (steps.toInt + more.toInt) →
        (p.step steps).step more = p.step (steps + more)) := by
  intro target
  have hword : (p.wordDegree + steps.toInt64).toInt = target := p.toInt_wordDegree_add steps
  refine ⟨⟨p.toInt_wordOctave, p.toInt_wordDegree, hword, ?_, ?_⟩, nudge_of_lt, nudge_of_gt,
    eq_nudge_iff, ?_, fun hfits more hsum => step_step hfits hsum⟩
  · rw [toInt_octaveOf, hword]
  · rw [toInt_placeOf, hword]
  · intro hfits q
    rw [step_eq_ofDegree]
    exact eq_ofDegree_iff hfits q

/-- B flat below middle C, moved within the range, out of it on either side, and there and back. -/
theorem b_flat_is_nudged_exactly :
    let p : Pitch := ⟨.B, .flat, 3⟩
    let top : Int32 := 2147483647
    (p.degree = 27 ∧ FitsInt32 ((p.degree + top.toInt) / 7) ∧
        FitsInt32 (top.toInt + (-top).toInt)) ∧
      p.nudge 1 = ⟨.C, .flat, 4⟩ ∧ p.nudge (-7) = ⟨.C, .natural, 3⟩ ∧
      p.nudge top = ⟨.C, .natural, 6⟩ ∧ p.step (-28) = ⟨.B, .flat, -1⟩ ∧
      (p.step top).step (-top) = p.step (top + -top) := by
  intro p top
  obtain ⟨-, -, -, hnear, -, -⟩ := p.nudge_is_exact 1
  obtain ⟨-, hlow, -, -, -, -⟩ := p.nudge_is_exact (-7)
  obtain ⟨-, -, hhigh, -, -, hback⟩ := p.nudge_is_exact top
  obtain ⟨-, -, -, -, hbelow, -⟩ := p.nudge_is_exact (-28)
  have hfits : FitsInt32 ((p.degree + top.toInt) / 7) := by decide
  have hsum : FitsInt32 (top.toInt + (-top).toInt) := by decide
  have hfar : FitsInt32 ((p.degree + (-28 : Int32).toInt) / 7) := by decide
  refine ⟨⟨by decide, hfits, hsum⟩, ?_, hlow (by decide), hhigh (by decide), ?_,
    hback hfits (-top) hsum⟩
  · exact ((hnear (by decide) (by decide) ⟨.C, .flat, 4⟩).mpr (by decide)).symm
  · exact ((hbelow hfar ⟨.B, .flat, -1⟩).mpr (by decide)).symm

end Pitch

end TextScore

import Mathlib
import TextScore.Proofs.Pitch.Degree

/-!
# Written — nudging a pitch on paper

Tokens can be stepped and clamped as they are written.  Both read the token first and leave alone
what is no pitch, so a nudge on paper has to read again what the step has printed.  A token holds
one octave digit: the nudge is the one of the pitch as long as the step stays between C0 and B9, and
beyond, the printed step is no pitch any more and stays as it is.
-/

namespace TextScore.Pitch

variable {p : Pitch} {text : String}

/-! ## 1. Reading what was printed -/

theorem ofToken?_name (p : Pitch) :
    ofToken? p.name.toList = if p.Legible then some p else none := by
  unfold name
  rw [String.toList_ofList]
  by_cases hlegible : p.Legible
  · rw [if_pos hlegible, ofToken?_token_of_legible hlegible]
  · rw [if_neg hlegible, ofToken?_token_of_not_legible hlegible]

theorem stepToken_of_ne_zero (h : ofToken? text.toList = some p) {steps : Int32}
    (hsteps : steps ≠ 0) : stepToken text steps = (p.step steps).name := by
  unfold stepToken
  rw [h]
  exact if_neg hsteps

theorem stepToken_zero (text : String) : stepToken text 0 = text := by
  unfold stepToken
  split
  · exact if_pos rfl
  · rfl

theorem stepToken_of_not_legible (h : ofToken? text.toList = some p) {steps : Int32}
    (hstep : ¬(p.step steps).Legible) : stepToken text steps = (p.step steps).name := by
  apply stepToken_of_ne_zero h
  rintro rfl
  -- without a step the pitch is the one that was read
  rw [step_zero] at hstep
  exact hstep (legible_of_ofToken? h)

/-- A stepped token can be read, as the stepped pitch, while the octave has one digit. -/
theorem ofToken?_stepToken (h : ofToken? text.toList = some p) (steps : Int32) :
    ofToken? (stepToken text steps).toList =
      if (p.step steps).Legible then some (p.step steps) else none := by
  by_cases hsteps : steps = 0
  · rw [hsteps, stepToken_zero, step_zero, if_pos (legible_of_ofToken? h), h]
  · rw [stepToken_of_ne_zero h hsteps, ofToken?_name]

theorem ofToken?_clampToken (h : ofToken? text.toList = some p) :
    ofToken? (clampToken text).toList = some p.clamp := by
  have hclamp : clampToken text = if p.clamp = p then text else p.clamp.name := by
    unfold clampToken
    rw [h]
  by_cases hsame : p.clamp = p
  · rw [hclamp, if_pos hsame, h, hsame]
  · rw [hclamp, if_neg hsame, ofToken?_name, if_pos p.inRange_clamp.legible]

theorem clampToken_of_unread (h : ofToken? text.toList = none) : clampToken text = text := by
  unfold clampToken
  rw [h]

/-! ## 2. Nudges on paper -/

/-- For a token that is read as a pitch, stepping and then clamping it on paper gives a token that
is read as the nudged pitch if and only if the step stays from C0 to B9.  A step beyond is printed
with an octave that no token holds, and clamping leaves that as it is. -/
theorem clampToken_stepToken_reads_iff (h : ofToken? text.toList = some p) (steps : Int32) :
    let nudged := clampToken (stepToken text steps)
    (ofToken? nudged.toList = some (p.nudge steps) ↔
        0 ≤ p.degree + steps.toInt ∧ p.degree + steps.toInt < 70) ∧
      (¬(0 ≤ p.degree + steps.toInt ∧ p.degree + steps.toInt < 70) →
        nudged = (p.step steps).name ∧ ofToken? nudged.toList = none) := by
  intro nudged
  rw [← legible_step_iff]
  have hstepped := ofToken?_stepToken h steps
  by_cases hlegible : (p.step steps).Legible
  · rw [if_pos hlegible] at hstepped
    exact ⟨iff_of_true (ofToken?_clampToken hstepped) hlegible, fun hnot => absurd hlegible hnot⟩
  · rw [if_neg hlegible] at hstepped
    have hsame : nudged = stepToken text steps := clampToken_of_unread hstepped
    have hunread : ofToken? nudged.toList = none := by rw [hsame, hstepped]
    refine ⟨iff_of_false ?_ hlegible, fun _ => ⟨?_, hunread⟩⟩
    · rw [hunread]
      exact nofun
    · rw [hsame, stepToken_of_not_legible h hlegible]

/-- A nudge on paper out of the range and back into it, and one past all octaves of a token. -/
theorem b_flat_is_nudged_on_paper :
    let p : Pitch := ⟨.B, .flat, 5⟩
    ofToken? "Bb5".toList = some p ∧
      (0 ≤ p.degree + (20 : Int32).toInt ∧ p.degree + (20 : Int32).toInt < 70) ∧
      ofToken? (clampToken (stepToken "Bb5" 20)).toList = some (p.nudge 20) ∧
      ¬(0 ≤ p.degree + (30 : Int32).toInt ∧ p.degree + (30 : Int32).toInt < 70) ∧
      clampToken (stepToken "Bb5" 30) = (p.step 30).name ∧
      ofToken? (clampToken (stepToken "Bb5" 30)).toList = none := by
  intro p
  have hread : ofToken? "Bb5".toList = some p := by decide
  obtain ⟨hwithin, -⟩ := clampToken_stepToken_reads_iff hread 20
  obtain ⟨-, hbeyond⟩ := clampToken_stepToken_reads_iff hread 30
  have hnear : 0 ≤ p.degree + (20 : Int32).toInt ∧ p.degree + (20 : Int32).toInt < 70 := by decide
  have hfar : ¬(0 ≤ p.degree + (30 : Int32).toInt ∧ p.degree + (30 : Int32).toInt < 70) := by
    decide
  exact ⟨hread, hnear, hwithin.mpr hnear, hfar, (hbeyond hfar).1, (hbeyond hfar).2⟩

/-- Ten octaves above middle C the step is printed as `C14`, which clamping does not read. -/
theorem fourteenth_octave_is_not_clamped :
    stepToken "C4" 70 = "C14" ∧ clampToken "C14" = "C14" ∧ ofToken? "C14".toList = none ∧
      (⟨.C, .natural, 4⟩ : Pitch).nudge 70 = highest ∧
      ¬∀ (text : String) (p : Pitch) (steps : Int32), ofToken? text.toList = some p →
        ofToken? (clampToken (stepToken text steps)).toList = some (p.nudge steps) := by
  have hstep : stepToken "C4" 70 = "C14" := by decide
  have hclamp : clampToken "C14" = "C14" := by decide
  have hunread : ofToken? "C14".toList = none := by decide
  refine ⟨hstep, hclamp, hunread, by decide, fun hall => ?_⟩
  have hread : ofToken? "C4".toList = some ⟨.C, .natural, 4⟩ := by decide
  have hnudged := hall "C4" _ 70 hread
  rw [hstep, hclamp, hunread] at hnudged
  cases hnudged

end TextScore.Pitch

import Mathlib
import TextScore.Json.Number
import TextScore.Proofs.Decimal.Scientific
import TextScore.Proofs.Decimal.Written
import TextScore.Proofs.Json.Numeral

/-!
# Number — every finite double is read back as a number

The reader multiplies a word by a power of ten, both of them rounded, and refuses what overflows.
A number that was written by a program may come back with another last digit, but it does come back:
the digits of a double stay so far below the end of the format that the two roundings cannot reach
it.  Only for the largest double itself this has to be seen from its digits.
-/

namespace TextScore.Json

open Decimal

/-! ## 1. Words -/

section

variable {digits : List Char}

/-- The word is made of the digits in front of those that are left over. -/
theorem gather_spec (digits : List Char) {word : ℕ} (hword : word ≤ wordMax) :
    ∃ taken, digits = taken ++ (gather word digits).2 ∧
      (gather word digits).1 = Nat.ofDigitChars 10 taken word ∧
      (gather word digits).1 ≤ wordMax := by
  induction digits generalizing word with
  | nil => exact ⟨[], rfl, rfl, hword⟩
  | cons c rest ih =>
    unfold gather
    extract_lets next
    split
    next => exact ⟨[], rfl, rfl, hword⟩
    next hfits =>
      obtain ⟨taken, hrest, hvalue, hle⟩ := ih (Nat.le_of_not_lt hfits)
      refine ⟨c :: taken, congrArg (c :: ·) hrest, ?_, hle⟩
      rw [hvalue, Nat.ofDigitChars_cons, Nat.mul_comm 10 word]

/-- Digits that are left over only count as powers of ten. -/
theorem gather_mul_le (digits : List Char) {word : ℕ} (hword : word ≤ wordMax) :
    (gather word digits).1 * 10 ^ (gather word digits).2.length ≤
      Nat.ofDigitChars 10 digits word := by
  obtain ⟨taken, hdigits, hvalue, -⟩ := gather_spec digits hword
  generalize gather word digits = result at hdigits hvalue
  rw [hdigits, Nat.ofDigitChars_append, Nat.ofDigitChars_eq_ofDigitChars_zero, hvalue,
    Nat.mul_comm]
  exact Nat.le_add_right _ _

theorem gather_le_wordMax (digits : List Char) {word : ℕ} (hword : word ≤ wordMax) :
    (gather word digits).1 ≤ wordMax := by
  obtain ⟨-, -, -, hle⟩ := gather_spec digits hword
  exact hle

theorem length_gather_le (digits : List Char) {word : ℕ} (hword : word ≤ wordMax) :
    (gather word digits).2.length ≤ digits.length := by
  obtain ⟨taken, hdigits, -⟩ := gather_spec digits hword
  conv_rhs => rw [hdigits]
  rw [List.length_append]
  exact Nat.le_add_left _ _

/-- As long as there is room for them, all digits are gathered. -/
theorem gather_of_room (hdigits : ∀ c ∈ digits, c.isDigit = true) {word : ℕ}
    (hroom : (word + 1) * 10 ^ digits.length ≤ wordMax + 1) :
    gather word digits = (Nat.ofDigitChars 10 digits word, []) := by
  induction digits generalizing word with
  | nil => rfl
  | cons c rest ih =>
    have hdigit : c.toNat - '0'.toNat ≤ 9 := by
      have hc : c.toNat ≤ 57 := (Char.isDigit_iff_toNat.mp (hdigits c List.mem_cons_self)).2
      show c.toNat - 48 ≤ 9
      omega
    have hnext : (word * 10 + (c.toNat - '0'.toNat) + 1) * 10 ^ rest.length ≤ wordMax + 1 := by
      refine le_trans ?_ hroom
      rw [List.length_cons, Nat.pow_succ', ← Nat.mul_assoc]
      exact Nat.mul_le_mul_right _ (by omega)
    have hpow : 0 < 10 ^ rest.length := Nat.pow_pos (by decide)
    have hfits := (Nat.le_mul_of_pos_right _ hpow).trans hnext
    unfold gather
    rw [if_neg (by omega), ih (fun d hd => hdigits d (List.mem_cons_of_mem c hd)) hnext,
      Nat.ofDigitChars_cons, Nat.mul_comm 10 word]

theorem gather_of_length_le (hdigits : ∀ c ∈ digits, c.isDigit = true)
    (hlength : digits.length ≤ 19) : gather 0 digits = (Nat.ofDigitChars 10 digits 0, []) := by
  refine gather_of_room hdigits ?_
  rw [Nat.zero_add, Nat.one_mul]
  exact (Nat.pow_le_pow_right (by decide) hlength).trans (by decide)

end

/-! ## 2. Scaling -/

/-- Half a unit of the last place below the largest double, which is `(2 ^ 54 - 3) * 2 ^ 970`. -/
def writtenBound : ℕ := (2 ^ 54 - 3) * (2 ^ 194) ^ 5

theorem wordMax_le_writtenBound : wordMax ≤ writtenBound := by
  decide

theorem writtenBound_lt {n : ℕ} (hn : 309 ≤ n) : writtenBound < 10 ^ n := by
  have hless : writtenBound < 10 ^ 200 * 10 ^ 109 := by decide
  have hpow : 10 ^ 109 ≤ 10 ^ (n - 200) := Nat.pow_le_pow_right (by decide) (by omega)
  calc writtenBound < 10 ^ 200 * 10 ^ 109 := hless
    _ ≤ 10 ^ 200 * 10 ^ (n - 200) := Nat.mul_le_mul_left _ hpow
    _ = 10 ^ n := by rw [← Nat.pow_add, Nat.add_sub_cancel' (by omega)]

/-- Small powers of ten are in order.  The largest word is scaled by `10 ^ 288` without coming near
the end of the format; for greater powers the largest word below the bound is looked at. -/
theorem powers_of_ten :
    (∀ n ≤ 22, 1 ≤ powerOfTen n ∧ powerOfTen n ≤ powerOfTen 288) ∧
      ((Float.ofNat wordMax).isFinite = true ∧ (powerOfTen 288).isFinite = true ∧
        (Float.ofNat wordMax * powerOfTen 288).isFinite = true) ∧
      ∀ n ≤ 19, (1 ≤ powerOfTen (289 + n) ∧ (powerOfTen (289 + n)).isFinite = true) ∧
        (Float.ofNat (writtenBound / 10 ^ (289 + n))).isFinite = true ∧
        (Float.ofNat (writtenBound / 10 ^ (289 + n)) * powerOfTen (289 + n)).isFinite = true := by
  decide +kernel

theorem exists_standsAt_powerOfTen {n : ℕ} (hlong : 22 < n) (hn : n ≤ 308) :
    ∃ w, Nearest ((10 : ℚ) ^ n) w ∧ StandsAt (powerOfTen n) (clip w) := by
  have h := exists_standsAt_ofScientific (m := 1) (by decide) (by omega : n ≤ 2048)
    (fun hshort => by omega)
  rwa [Nat.cast_one, one_mul] at h

theorem powerOfTen_le {n : ℕ} (hn : n ≤ 288) :
    1 ≤ powerOfTen n ∧ powerOfTen n ≤ powerOfTen 288 := by
  by_cases hshort : n ≤ 22
  · exact powers_of_ten.1 n hshort
  · obtain ⟨u, hu, hustands⟩ := exists_standsAt_ofNat 1
    obtain ⟨v, hv, hvstands⟩ := exists_standsAt_powerOfTen (not_le.mp hshort) (by omega)
    obtain ⟨w, hw, hwstands⟩ := exists_standsAt_powerOfTen (n := 288) (by decide) (by decide)
    have hone : ((1 : ℕ) : ℚ) ≤ 10 ^ n := by
      rw [Nat.cast_one]
      exact one_le_pow₀ (by norm_num)
    have hle : (10 : ℚ) ^ n ≤ 10 ^ 288 := pow_le_pow_right₀ (by norm_num) hn
    exact ⟨(hustands.le_iff hvstands).mpr (clip_mono (hu.mono hv (Nat.cast_nonneg 1) hone)),
      (hvstands.le_iff hwstands).mpr (clip_mono (hv.mono hw (by positivity) hle))⟩

theorem one_le_powerOfTen {n : ℕ} (hn : n ≤ 308) :
    1 ≤ powerOfTen n ∧ (powerOfTen n).isFinite = true := by
  by_cases hsmall : n ≤ 288
  · obtain ⟨hone, hle⟩ := powerOfTen_le hsmall
    obtain ⟨-, hpower, -⟩ := powers_of_ten.2.1
    have hnonneg := float_le_trans (ofNat_le_ofNat (Nat.zero_le 1)) hone
    exact ⟨hone, isFinite_of_le hnonneg hle hpower⟩
  · obtain ⟨k, rfl⟩ : ∃ k, n = 289 + k := ⟨n - 289, by omega⟩
    exact (powers_of_ten.2.2 k (by omega)).1

/-- Below the bound the two roundings do not lead out of the format. -/
theorem isFinite_mul_powerOfTen {word n : ℕ} (hword : word ≤ wordMax) (hn : n ≤ 308)
    (h : word * 10 ^ n ≤ writtenBound) : (Float.ofNat word * powerOfTen n).isFinite = true := by
  obtain ⟨hone, hfinite⟩ := one_le_powerOfTen hn
  have hword0 : (0 : Float) ≤ Float.ofNat word := ofNat_le_ofNat (Nat.zero_le word)
  have hpower0 : 0 ≤ powerOfTen n := float_le_trans (ofNat_le_ofNat (Nat.zero_le 1)) hone
  by_cases hsmall : n ≤ 288
  · obtain ⟨hwordMax, hpower, hproduct⟩ := powers_of_ten.2.1
    exact isFinite_mul_of_le hword0 (ofNat_le_ofNat hword) hpower0 (powerOfTen_le hsmall).2 hwordMax
      hpower hproduct
  · obtain ⟨k, rfl⟩ : ∃ k, n = 289 + k := ⟨n - 289, by omega⟩
    obtain ⟨-, hbound, hproduct⟩ := powers_of_ten.2.2 k (by omega)
    have hle : word ≤ writtenBound / 10 ^ (289 + k) :=
      (Nat.le_div_iff_mul_le (Nat.pow_pos (by decide))).mpr h
    obtain ⟨-, q, -, hq, -⟩ := exists_standsAt_of_le hone
    exact isFinite_mul_of_le hword0 (ofNat_le_ofNat hle) hpower0 (float_le_refl hq.isNaN) hbound
      hfinite hproduct

theorem isSome_scale?_of_neg (steps : ℕ) (x : Float) {exponent : ℤ} (h : exponent < 0) :
    (scale? steps x exponent).isSome = true := by
  have hnot : ¬0 ≤ exponent := not_le.mpr h
  induction steps generalizing x exponent with
  | zero =>
    unfold scale?
    simp only [hnot, if_false]
    split
    · rfl
    · split <;> rfl
  | succ steps ih =>
    unfold scale?
    simp only [hnot, if_false]
    split
    · rfl
    · split
      · rfl
      · exact ih _ (by omega) (by omega)

theorem isSome_scale? {word : ℕ} {exponent : ℤ} (hword : word ≤ wordMax)
    (h : 0 ≤ exponent → word * 10 ^ exponent.toNat ≤ writtenBound) :
    (scale? 3 (Float.ofNat word) exponent).isSome = true := by
  rcases lt_or_ge exponent 0 with hneg | hpos
  · exact isSome_scale?_of_neg 3 _ hneg
  · obtain ⟨n, rfl⟩ := Int.eq_ofNat_of_zero_le hpos
    have hbound := h hpos
    rw [Int.toNat_natCast] at hbound
    unfold scale?
    by_cases hn : n ≤ 308
    · have hfinite := isFinite_mul_powerOfTen hword hn hbound
      rw [if_pos (by exact hn), if_pos hpos]
      simp only [Int.natAbs_natCast, hfinite, if_true, Option.isSome_some]
    · -- only nothing can be scaled so far
      have hzero : word = 0 := by
        by_contra hne
        have hten : 10 ^ n ≤ word * 10 ^ n := Nat.le_mul_of_pos_left _ (Nat.pos_of_ne_zero hne)
        exact absurd (hten.trans hbound) (not_le.mpr (writtenBound_lt (by omega)))
      rw [if_neg (by exact hn), hzero, if_pos (by decide)]
      rfl

/-! ## 3. Numerals -/

/-- The double without its sign. -/
theorem isSome_numeralValue?_signed (n : Numeral) (negative : Bool) :
    (numeralValue? { n with negative }).isSome = (numeralValue? n).isSome := by
  unfold numeralValue?
  simp only [Option.isSome_map]

/-- A numeral without an exponent is worth a number if its whole part is not too long. -/
theorem isSome_numeralValue?_of_exponent_eq_none {n : Numeral}
    (hwhole : ∀ c ∈ n.whole, c.isDigit = true) (hlength : n.whole.length ≤ 19)
    (hexponent : n.exponent = none) : (numeralValue? n).isSome = true := by
  have hgather := gather_of_length_le hwhole hlength
  have hword : Nat.ofDigitChars 10 n.whole 0 ≤ wordMax := by
    have := gather_le_wordMax n.whole (Nat.zero_le wordMax)
    rwa [hgather] at this
  unfold numeralValue?
  simp only [hgather, hexponent, Option.isSome_map, List.length_nil, Nat.cast_zero, zero_sub]
  refine isSome_scale? (gather_le_wordMax _ hword) fun hpos => ?_
  -- the exponent is not above zero, so there is nothing to scale
  obtain ⟨taken, htaken⟩ : ∃ taken : ℕ,
      taken = (n.fraction.getD []).length -
        (gather (Nat.ofDigitChars 10 n.whole 0) (n.fraction.getD [])).2.length := ⟨_, rfl⟩
  rw [← htaken] at hpos ⊢
  obtain rfl : taken = 0 := by omega
  rw [Nat.cast_zero, neg_zero, Int.toNat_zero, Nat.pow_zero, Nat.mul_one]
  exact (gather_le_wordMax _ hword).trans wordMax_le_writtenBound

theorem getD_fraction_scientific (digits : List Char) (magnitude : ℤ) :
    (Numeral.scientific digits magnitude).fraction.getD [] = digits.tail := by
  unfold Numeral.scientific
  cases digits.tail <;> rfl

/-- The first digit of a positive number stands below the number. -/
theorem pow_length_toDigits_le {D : ℕ} (hD : 0 < D) : 10 ^ ((Nat.toDigits 10 D).length - 1) ≤ D := by
  by_contra hlt
  by_cases hone : (Nat.toDigits 10 D).length - 1 = 0
  · rw [hone] at hlt
    omega
  · have hle := (Nat.length_toDigits_le_iff (by decide) (Nat.pos_of_ne_zero hone)).mpr
      (Nat.lt_of_not_le hlt)
    omega

/-- A number below the bound has its first digit below the end of the format. -/
theorem lt_of_zpow_le_writtenBound {magnitude : ℤ} (h : (10 : ℚ) ^ magnitude ≤ writtenBound) :
    magnitude < 309 := by
  by_contra hge
  obtain ⟨n, rfl⟩ := Int.eq_ofNat_of_zero_le (by omega : 0 ≤ magnitude)
  have hless : (writtenBound : ℚ) < (10 ^ n : ℕ) := Nat.cast_lt.mpr (writtenBound_lt (by omega))
  rw [zpow_natCast] at h
  push_cast at hless
  exact absurd h (not_le.mpr hless)

/-- The magnitude that is written adds to the exponent of the digits. -/
theorem add_magnitude (exponent magnitude : ℤ) :
    (if decide (magnitude < 0) = true then exponent - magnitude.natAbs
      else exponent + magnitude.natAbs) = exponent + magnitude := by
  by_cases hneg : magnitude < 0
  · rw [if_pos (decide_eq_true hneg)]
    omega
  · rw [if_neg (mt of_decide_eq_true hneg)]
    omega

/-- What is left over makes up for the digits that were not taken. -/
theorem mul_zpow_add_le {word passed D : ℕ} (h : word * 10 ^ passed ≤ D) (K : ℤ) :
    (word : ℚ) * 10 ^ (K + passed) ≤ D * 10 ^ K := by
  calc (word : ℚ) * 10 ^ (K + passed) = (word * 10 ^ passed : ℕ) * 10 ^ K := by
        rw [add_comm, zpow_add₀ (by norm_num), zpow_natCast]
        push_cast
        ring
    _ ≤ D * 10 ^ K := by gcongr

/-- What a number is written as is worth a number. -/
theorem isSome_numeralValue?_scientific {D : ℕ} {K : ℤ} (hD : 0 < D)
    (hbound : (D : ℚ) * 10 ^ K ≤ writtenBound) :
    (numeralValue? (.scientific (Nat.toDigits 10 D) (K + (Nat.toDigits 10 D).length - 1))).isSome =
      true := by
  have hfirst := pow_length_toDigits_le hD
  have hdigits := digits_toDigits D
  have hvalue : Nat.ofDigitChars 10 (Nat.toDigits 10 D) 0 = D := Nat.ofDigitChars_ten_toDigits
  generalize Nat.toDigits 10 D = digits at *
  obtain ⟨first, tail, rfl⟩ := List.exists_cons_of_ne_nil hdigits.ne_nil
  rw [List.length_cons, Nat.add_sub_cancel] at hfirst
  obtain ⟨M, hM⟩ : ∃ M : ℤ, K + (first :: tail).length - 1 = M := ⟨_, rfl⟩
  have hK : M = K + tail.length := by
    rw [List.length_cons] at hM
    omega
  have hmagnitude : M < 309 := by
    have hle : ((1 : ℕ) : ℚ) * 10 ^ (K + tail.length) ≤ D * 10 ^ K :=
      mul_zpow_add_le ((Nat.one_mul _).trans_le hfirst) K
    rw [← hK, Nat.cast_one, one_mul] at hle
    exact lt_of_zpow_le_writtenBound (hle.trans hbound)
  have hgather : gather 0 [first] = (Nat.ofDigitChars 10 [first] 0, []) :=
    gather_of_length_le (by simpa using hdigits.digit first List.mem_cons_self) (by simp)
  have hword : Nat.ofDigitChars 10 [first] 0 ≤ wordMax := by
    have := gather_le_wordMax [first] (Nat.zero_le wordMax)
    rwa [hgather] at this
  have hgathered := gather_mul_le tail hword
  have hfit := gather_le_wordMax tail hword
  have hlength := length_gather_le tail hword
  rw [hM]
  unfold numeralValue?
  simp only [getD_fraction_scientific, List.tail_cons, Option.isSome_map]
  simp only [Numeral.scientific, List.take_succ_cons, List.take_zero, hgather,
    Nat.ofDigitChars_ten_toDigits, add_magnitude]
  rw [← Nat.ofDigitChars_append, List.singleton_append, hvalue] at hgathered
  generalize gather (Nat.ofDigitChars 10 [first] 0) tail = result at *
  obtain ⟨word, passed⟩ := result
  simp only at hgathered hfit hlength ⊢
  split
  next hhuge =>
    have hneg : M < 0 := by
      unfold exponentMax at hhuge
      omega
    rw [if_pos (.inr (decide_eq_true hneg))]
    rfl
  next =>
    have hscaled : ((([] : List Char).length : ℕ) : ℤ) - (tail.length - passed.length : ℕ) + M =
        K + passed.length := by
      rw [hK, List.length_nil]
      omega
    rw [hscaled]
    refine isSome_scale? hfit fun hpos => ?_
    have hle := (mul_zpow_add_le hgathered K).trans hbound
    rw [← Int.toNat_of_nonneg hpos, zpow_natCast] at hle
    exact_mod_cast hle

/-! ## 4. Doubles -/

theorem isSome_numeralValue?_positional {digits : List Char}
    (hdigits : ∀ c ∈ digits, c.isDigit = true) {point : ℤ} (hpoint : point ≤ 16) :
    (numeralValue? (.positional digits point)).isSome = true := by
  unfold Numeral.positional
  split
  next => exact isSome_numeralValue?_of_exponent_eq_none (by simp) (by simp) rfl
  next =>
  split
  next hshort =>
    refine isSome_numeralValue?_of_exponent_eq_none
      (List.forall_mem_append.mpr ⟨hdigits, isDigit_of_mem_replicate⟩) ?_ rfl
    show (digits ++ List.replicate (point - digits.length).toNat '0').length ≤ 19
    rw [List.length_append, List.length_replicate]
    omega
  next =>
    refine isSome_numeralValue?_of_exponent_eq_none
      (fun c hc => hdigits c (List.mem_of_mem_take hc)) ?_ rfl
    show (digits.take point.toNat).length ≤ 19
    rw [List.length_take]
    omega

/-- The digits of the largest double, and what would stand for a double without digits. -/
theorem isSome_numeralValue?_ends :
    (numeralValue? (.ofExpansion (shortest .toEven (2 ^ 53 - 1) 971))).isSome = true ∧
      (numeralValue? (.ofExpansion ⟨0, -17⟩)).isSome = true := by
  decide +kernel

/-- All other doubles stay below the bound. -/
theorem le_writtenBound {m : ℕ} {e : ℤ} (hm : m < 2 ^ 53) (he : e ≤ 971)
    (hne : ¬(m = 2 ^ 53 - 1 ∧ e = 971)) : ((m : ℚ) + 1 / 2) * 2 ^ e ≤ writtenBound := by
  have hbound : (writtenBound : ℚ) = (2 ^ 53 - 3 / 2) * 2 ^ (971 : ℤ) := by
    have hpow : (2 : ℚ) ^ (971 : ℤ) = 2 * (2 ^ 194) ^ 5 := by
      rw [show (971 : ℤ) = 1 + ((194 * 5 : ℕ) : ℤ) from rfl, zpow_add₀ (by norm_num), zpow_one,
        zpow_natCast, pow_mul]
    have hcast : (writtenBound : ℚ) = (2 ^ 54 - 3 : ℕ) * (2 ^ 194) ^ 5 := by
      rw [writtenBound, Nat.cast_mul, Nat.cast_pow, Nat.cast_pow, Nat.cast_ofNat]
    rw [hcast, hpow]
    generalize ((2 : ℚ) ^ 194) ^ 5 = root
    norm_num
    ring
  have hpos : (0 : ℚ) < 2 ^ (971 : ℤ) := by positivity
  rw [hbound]
  by_cases hlast : e = 971
  · have hless : m + 2 ≤ 2 ^ 53 := by omega
    have hless' : (m : ℚ) + 2 ≤ 2 ^ 53 := by exact_mod_cast hless
    rw [hlast]
    gcongr
    linarith
  · have hless : (m : ℚ) ≤ 2 ^ 53 := by exact_mod_cast hm.le
    have hhalf : (2 : ℚ) ^ e ≤ 2 ^ (971 : ℤ) / 2 := by
      rw [le_div_iff₀ (by norm_num), ← zpow_add_one₀ (by norm_num)]
      exact zpow_le_zpow_right₀ (by norm_num) (by omega)
    calc ((m : ℚ) + 1 / 2) * 2 ^ e ≤ (2 ^ 53 + 1 / 2) * (2 ^ (971 : ℤ) / 2) := by gcongr
      _ = (2 ^ 52 + 1 / 4) * 2 ^ (971 : ℤ) := by ring
      _ ≤ (2 ^ 53 - 3 / 2) * 2 ^ (971 : ℤ) := by gcongr; norm_num

theorem isSome_numeralValue?_ofMagnitude {m : ℕ} {e : ℤ} (hm : m < 2 ^ 53) (he : e ≤ 971) :
    (numeralValue? (.ofMagnitude m e)).isSome = true := by
  unfold Numeral.ofMagnitude
  split
  next => rfl
  next hzero =>
  by_cases hlargest : m = 2 ^ 53 - 1 ∧ e = 971
  · rw [hlargest.1, hlargest.2]
    exact isSome_numeralValue?_ends.1
  · have hle := (shortest_le .toEven e (Nat.pos_of_ne_zero hzero)).trans
      (le_writtenBound hm he hlargest)
    rcases shortest_cases .toEven m e with hpos | hnone
    · generalize shortest .toEven m e = d at hle hpos
      unfold Numeral.ofExpansion
      extract_lets digits point
      split
      next hrange =>
        exact isSome_numeralValue?_positional (digits_toDigits d.digits).digit (by omega)
      next => exact isSome_numeralValue?_scientific hpos hle
    · rw [hnone]
      exact isSome_numeralValue?_ends.2

/-- A finite double has a mantissa of 53 places and an exponent of the format. -/
theorem fields_of_finite {x : Float} {negative : Bool} {m : ℕ} {e : ℤ}
    (h : Binary64.ofFloat x = .finite negative m e) : m < 2 ^ 53 ∧ e ≤ 971 := by
  unfold Binary64.ofFloat Binary64.ofBits at h
  generalize x.toBits.toNat = bits at h
  have hfraction : bits % twoTo 52 < 2 ^ 52 := Nat.mod_lt _ (by decide)
  have hbiased : bits / twoTo 52 % twoTo 11 < 2048 := Nat.mod_lt _ (by decide)
  extract_lets sign biased fraction at h
  split at h
  next => split at h <;> cases h
  next hnot =>
    split at h
    next =>
      injection h with _ hm he
      rw [← hm, ← he]
      exact ⟨hfraction.trans (by decide), by decide⟩
    next =>
      injection h with _ hm he
      have hless : biased ≤ 2046 := by
        have : biased < 2048 := hbiased
        omega
      rw [← hm, ← he]
      refine ⟨?_, by omega⟩
      show bits % twoTo 52 + 2 ^ 52 < 2 ^ 53
      omega

/-- A finite double is read back as a number. -/
theorem isSome_toFloat?_ofFloat {x : Float} (h : x.isFinite = true) :
    (ofFloat x).toFloat?.isSome = true := by
  obtain ⟨negative, mantissa, exponent, hfields, hchars⟩ := exists_numeral_write h
  obtain ⟨hm, he⟩ := fields_of_finite hfields
  have hjson := (Numeral.isJson_ofMagnitude mantissa exponent).signed negative
  have hends : EndsNumeral [] := nofun
  have hscan := scanNumber?_append hjson hends
  rw [List.append_nil, ← hchars] at hscan
  unfold ofFloat
  rw [if_pos h]
  show ((scanNumber? (jsonStyle.write x).toList).bind _).isSome = true
  rw [hscan, Option.bind_some, isSome_numeralValue?_signed]
  exact isSome_numeralValue?_ofMagnitude hm he

/-! ## 5. What is read -/

theorem isFinite_div_powerOfTen {x : Float} (h : x.isFinite = true) {n : ℕ} (hn : n ≤ 308) :
    (x / powerOfTen n).isFinite = true :=
  isFinite_div_of_one_le h (one_le_powerOfTen hn).2 (one_le_powerOfTen hn).1

/-- Scaling ends with a finite number, or goes on with a smaller one. -/
theorem scale?_cases {steps : ℕ} {x y : Float} {exponent : ℤ} (hx : x.isFinite = true)
    (h : scale? steps x exponent = some y) :
    y.isFinite = true ∨ ∃ fewer, steps = fewer + 1 ∧
      scale? fewer (x / powerOfTen 308) (exponent + 308) = some y := by
  unfold scale? at h
  split at h
  next hn =>
    left
    split at h
    next =>
      -- a product is looked at before it is taken
      simp only at h
      split at h
      next hfinite => rwa [Option.some.inj h] at hfinite
      next => cases h
    next =>
      rw [← Option.some.inj h]
      exact isFinite_div_powerOfTen hx hn
  next =>
    split at h
    next =>
      rw [← Option.some.inj h]
      exact .inl hx
    next =>
      split at h
      next => cases h
      next =>
        split at h
        next =>
          rw [← Option.some.inj h]
          exact .inl rfl
        next fewer => exact .inr ⟨fewer, rfl, h⟩

theorem isFinite_of_scale? {steps : ℕ} {x y : Float} {exponent : ℤ} (hx : x.isFinite = true)
    (h : scale? steps x exponent = some y) : y.isFinite = true := by
  induction steps generalizing x exponent with
  | zero =>
    rcases scale?_cases hx h with hfinite | ⟨fewer, hsteps, -⟩
    · exact hfinite
    · cases hsteps
  | succ steps ih =>
    rcases scale?_cases hx h with hfinite | ⟨fewer, hsteps, hrest⟩
    · exact hfinite
    · obtain rfl := Nat.succ.inj hsteps
      exact ih (isFinite_div_powerOfTen hx le_rfl) hrest

/-- What is read is finite. -/
theorem isFinite_of_toFloat? {v : Json} {x : Float} (h : v.toFloat? = some x) :
    x.isFinite = true := by
  cases v
  case number numeral =>
    obtain ⟨scanned, -, hvalue⟩ := Option.bind_eq_some_iff.mp h
    unfold numeralValue? at hvalue
    simp only [Option.map_eq_some_iff] at hvalue
    obtain ⟨size, hsize, rfl⟩ := hvalue
    have hword : (Float.ofNat (gather (gather 0 scanned.1.whole).1
        (scanned.1.fraction.getD [])).1).isFinite = true := by
      have hle := gather_le_wordMax (scanned.1.fraction.getD [])
        (gather_le_wordMax scanned.1.whole (Nat.zero_le wordMax))
      exact isFinite_of_le (ofNat_le_ofNat (Nat.zero_le _)) (ofNat_le_ofNat hle)
        powers_of_ten.2.1.1
    have hfinite : size.isFinite = true := by
      split at hsize
      next => exact isFinite_of_scale? hword hsize
      next =>
        split at hsize
        next =>
          split at hsize
          next =>
            obtain rfl := Option.some.inj hsize
            rfl
          next => cases hsize
        next => exact isFinite_of_scale? hword hsize
    split
    · exact isFinite_neg hfinite
    · exact hfinite
  all_goals cases h

end TextScore.Json

import Mathlib
import TextScore.Decimal.Style
import TextScore.Proofs.Decimal.Shortest
import TextScore.Proofs.Decimal.Unpacked

/-!
# Written — short decimals are written out

A double that is a decimal of at most fifteen digits is written as that decimal.  The reals that
round to the double are fewer than one step of the decimal's last place, so no other decimal of that
length or a shorter one is among them.
-/

namespace TextScore.Decimal

open Float.Model.UnpackedFloat (Sign)

/-! ## 1. Digits of multiples and quotients -/

theorem toDigits_concat {n d : ℕ} (hn : 0 < n) (hd : d < 10) :
    Nat.toDigits 10 (10 * n + d) = Nat.toDigits 10 n ++ [d.digitChar] := by
  rw [← Nat.toDigits_append_toDigits (by decide) hn hd, Nat.toDigits_of_lt_base hd]

theorem toDigits_mul_ten_pow {n : ℕ} (hn : 0 < n) (k : ℕ) :
    Nat.toDigits 10 (n * 10 ^ k) = Nat.toDigits 10 n ++ List.replicate k '0' := by
  induction k with
  | zero => rw [pow_zero, Nat.mul_one, List.replicate_zero, List.append_nil]
  | succ k ih =>
    have hpos : 0 < n * 10 ^ k := Nat.mul_pos hn (Nat.pow_pos (by decide))
    have hsucc : n * 10 ^ (k + 1) = 10 * (n * 10 ^ k) + 0 := by ring
    rw [hsucc, toDigits_concat hpos (by decide), ih, List.replicate_succ', List.append_assoc]
    rfl

/-- The last digits of a number can be cut off. -/
theorem exists_toDigits_append {n : ℕ} (j : ℕ) (h : 10 ^ j ≤ n) :
    ∃ low, Nat.toDigits 10 n = Nat.toDigits 10 (n / 10 ^ j) ++ low ∧ low.length = j := by
  induction j with
  | zero => exact ⟨[], by rw [pow_zero, Nat.div_one, List.append_nil], rfl⟩
  | succ j ih =>
    have hpow : 10 ^ j ≤ 10 ^ (j + 1) := Nat.pow_le_pow_right (by decide) (Nat.le_succ j)
    obtain ⟨low, hdigits, hlength⟩ := ih (hpow.trans h)
    -- one more digit is the last one of the quotient
    have hten : 10 ≤ n / 10 ^ j := by
      rw [Nat.le_div_iff_mul_le (Nat.pow_pos (by decide)), Nat.mul_comm, ← pow_succ]
      exact h
    rw [hdigits, Nat.toDigits_of_base_le (by decide) hten, Nat.div_div_eq_div_mul, ← pow_succ,
      List.append_assoc]
    exact ⟨_, rfl, by rw [List.length_append, hlength, List.length_singleton, Nat.add_comm]⟩

theorem getLast?_toDigits (n : ℕ) :
    (Nat.toDigits 10 n).getLast? = some (n % 10).digitChar := by
  by_cases h : n < 10
  · rw [Nat.toDigits_of_lt_base h, Nat.mod_eq_of_lt h]
    rfl
  · rw [Nat.toDigits_of_base_le (by decide) (by omega), List.getLast?_concat]

theorem getLast?_toDigits_ne {n : ℕ} (h : ¬ 10 ∣ n) : (Nat.toDigits 10 n).getLast? ≠ some '0' := by
  rw [getLast?_toDigits]
  have hlt : n % 10 < 10 := Nat.mod_lt n (by decide)
  have hpos : 0 < n % 10 := Nat.pos_of_ne_zero fun hzero => h (Nat.dvd_of_mod_eq_zero hzero)
  generalize n % 10 = d at hlt hpos
  interval_cases d <;> decide

/-- A positive number with one digit more than `d` lies between two powers of ten. -/
theorem exists_digitCount {n : ℕ} (hn : 0 < n) :
    ∃ d, digitCount n = d + 1 ∧ 10 ^ d ≤ n ∧ n < 10 ^ (d + 1) := by
  obtain ⟨d, hd⟩ : ∃ d, digitCount n = d + 1 :=
    Nat.exists_eq_succ_of_ne_zero Nat.length_toDigits_pos.ne'
  refine ⟨d, hd, ?_, ?_⟩
  · by_cases hzero : d = 0
    · rw [hzero]
      exact hn
    · have hlong : ¬ digitCount n ≤ d := by omega
      rw [digitCount, Nat.length_toDigits_le_iff (by decide) (Nat.pos_of_ne_zero hzero)] at hlong
      exact Nat.le_of_not_lt hlong
  · rw [← Nat.length_toDigits_le_iff (by decide) (Nat.succ_pos d)]
    exact hd.le

/-! ## 2. Decimals -/

/-- The digits write the number out, with no zeros that could be left out. -/
inductive WritesDecimal : List Char → ℚ → Prop
  | whole (n : ℕ) : WritesDecimal (Nat.toDigits 10 n) n
  | fraction (n : ℕ) {digits : List Char} (hdigits : Digits digits)
      (hlast : digits.getLast? ≠ some '0') :
      WritesDecimal (Nat.toDigits 10 n ++ '.' :: digits)
        (n + Nat.ofDigitChars 10 digits 0 / 10 ^ digits.length)

/-- Only one number is written with these digits and no point. -/
theorem eq_of_writesDecimal_toDigits {n : ℕ} {q : ℚ} (h : WritesDecimal (Nat.toDigits 10 n) q) :
    q = n := by
  generalize hdigits : Nat.toDigits 10 n = cs at h
  cases h with
  | whole k =>
    have hsame := congrArg (fun ds => Nat.ofDigitChars 10 ds 0) hdigits
    simp only [Nat.ofDigitChars_ten_toDigits] at hsame
    rw [hsame]
  | fraction k hds hlast =>
    have hpoint : '.' ∈ Nat.toDigits 10 n := by
      rw [hdigits]
      exact List.mem_append_right _ List.mem_cons_self
    have hdigit := (digits_toDigits n).digit '.' hpoint
    exact absurd hdigit (by decide)

theorem tenTo_eq (k : ℕ) : tenTo k = 10 ^ k := rfl

/-- A number with some of its last digits behind the point. -/
theorem writesDecimal_div {n D : ℕ} {low : List Char} (hdigits : Digits low)
    (hlast : low.getLast? ≠ some '0')
    (hD : Nat.ofDigitChars 10 (Nat.toDigits 10 n ++ low) 0 = D) :
    WritesDecimal (Nat.toDigits 10 n ++ '.' :: low) ((D : ℚ) / 10 ^ low.length) := by
  rw [Nat.ofDigitChars_append, Nat.ofDigitChars_ten_toDigits,
    Nat.ofDigitChars_eq_ofDigitChars_zero] at hD
  have hvalue : (D : ℚ) / 10 ^ low.length =
      n + Nat.ofDigitChars 10 low 0 / 10 ^ low.length := by
    rw [← hD]
    push_cast
    field_simp
  rw [hvalue]
  exact .fraction n hdigits hlast

section

variable {D : ℕ} (hD : ¬ 10 ∣ D)
include hD

theorem pos_of_not_dvd : 0 < D :=
  Nat.pos_of_ne_zero fun hzero => hD (hzero ▸ Nat.dvd_zero 10)

/-- A whole number has zeros at its end. -/
theorem writesDecimal_whole (k : ℕ) :
    WritesDecimal (Nat.toDigits 10 D ++ List.replicate k '0') (D * (10 : ℚ) ^ k) := by
  have hwhole := WritesDecimal.whole (D * 10 ^ k)
  rw [toDigits_mul_ten_pow (pos_of_not_dvd hD)] at hwhole
  push_cast at hwhole
  exact hwhole

/-- All digits stand behind the point, and zeros in front of them. -/
theorem writesDecimal_behind {j : ℕ} (hj : (Nat.toDigits 10 D).length ≤ j) :
    WritesDecimal
      ('0' :: '.' :: (List.replicate (j - (Nat.toDigits 10 D).length) '0' ++ Nat.toDigits 10 D))
      (D / (10 : ℚ) ^ j) := by
  generalize hlow : List.replicate (j - (Nat.toDigits 10 D).length) '0' ++ Nat.toDigits 10 D = low
  have hlength : low.length = j := by
    rw [← hlow, List.length_append, List.length_replicate]
    omega
  have hdigits : Digits low := by
    rw [← hlow]
    exact ⟨List.append_ne_nil_of_right_ne_nil _ Nat.toDigits_ne_nil,
      List.forall_mem_append.mpr ⟨isDigit_of_mem_replicate, (digits_toDigits D).digit⟩⟩
  have hlast : low.getLast? ≠ some '0' := by
    rw [← hlow, List.getLast?_append_of_ne_nil _ Nat.toDigits_ne_nil]
    exact getLast?_toDigits_ne hD
  have hread : Nat.ofDigitChars 10 (Nat.toDigits 10 0 ++ low) 0 = D := by
    rw [← hlow, Nat.ofDigitChars_append, Nat.ofDigitChars_append, Nat.ofDigitChars_ten_toDigits,
      Nat.ofDigitChars_replicate_zero, Nat.mul_zero, Nat.ofDigitChars_ten_toDigits]
  rw [← hlength]
  exact writesDecimal_div hdigits hlast hread

/-- The point stands between the digits. -/
theorem writesDecimal_between {j : ℕ} (hpos : 0 < j) (hj : j < (Nat.toDigits 10 D).length) :
    let front := (Nat.toDigits 10 D).length - j
    WritesDecimal ((Nat.toDigits 10 D).take front ++ '.' :: (Nat.toDigits 10 D).drop front)
      (D / (10 : ℚ) ^ j) := by
  intro front
  have hlarge : 10 ^ j ≤ D := by
    by_contra hlt
    have hshort := (Nat.length_toDigits_le_iff (by decide) hpos).mpr (Nat.lt_of_not_le hlt)
    omega
  obtain ⟨low, hsplit, hlow⟩ := exists_toDigits_append j hlarge
  have hdigits : Digits low := by
    constructor
    · intro hnil
      rw [hnil, List.length_nil] at hlow
      omega
    · intro c hc
      apply (digits_toDigits D).digit
      rw [hsplit]
      exact List.mem_append_right _ hc
  have hlast : low.getLast? ≠ some '0' := by
    have hlast := getLast?_toDigits_ne hD
    rwa [hsplit, List.getLast?_append_of_ne_nil _ hdigits.ne_nil] at hlast
  have hread : Nat.ofDigitChars 10 (Nat.toDigits 10 (D / 10 ^ j) ++ low) 0 = D := by
    rw [← hsplit, Nat.ofDigitChars_ten_toDigits]
  have hfront : front = (Nat.toDigits 10 (D / 10 ^ j)).length := by
    show (Nat.toDigits 10 D).length - j = _
    rw [hsplit, List.length_append, hlow, Nat.add_sub_cancel]
  have hwritten := writesDecimal_div hdigits hlast hread
  rw [hlow] at hwritten
  rw [hfront, hsplit, List.take_left', List.drop_left']
  · exact hwritten
  · rfl
  · rfl

/-- Positional notation writes a decimal out. -/
theorem writesDecimal_writePositional (K : ℤ) :
    WritesDecimal
      (messageStyle.writePositional (Nat.toDigits 10 D) (K + (Nat.toDigits 10 D).length))
      (D * (10 : ℚ) ^ K) := by
  have hlength : 0 < (Nat.toDigits 10 D).length := Nat.length_toDigits_pos
  unfold NumberStyle.writePositional
  by_cases hK : 0 ≤ K
  · obtain ⟨k, rfl⟩ := Int.eq_ofNat_of_zero_le hK
    rw [if_neg (by omega), if_pos (by omega), add_sub_cancel_right, zpow_natCast]
    show WritesDecimal (_ ++ _ ++ []) _
    rw [List.append_nil]
    exact writesDecimal_whole hD k
  · obtain ⟨j, rfl⟩ : ∃ j : ℕ, K = -j := ⟨(-K).toNat, by omega⟩
    rw [zpow_neg, zpow_natCast, ← div_eq_mul_inv]
    by_cases hsmall : (Nat.toDigits 10 D).length ≤ j
    · have hzeros : (-(-(j : ℤ) + (Nat.toDigits 10 D).length)).toNat =
          j - (Nat.toDigits 10 D).length := by omega
      rw [if_pos (by omega), hzeros]
      exact writesDecimal_behind hD hsmall
    · have hfront : (-(j : ℤ) + (Nat.toDigits 10 D).length).toNat =
          (Nat.toDigits 10 D).length - j := by omega
      rw [if_neg (by omega), if_neg (by omega), hfront]
      exact writesDecimal_between hD (by omega) (by omega)

end

/-! ## 3. The reals that round to a double -/

namespace RoundingRange

section

variable (m : ℕ) (e : ℤ)

theorem den_ofBinary_pos : 0 < (ofBinary m e).den := by
  show 0 < twoTo (2 - e).toNat
  rw [twoTo_eq]
  exact Nat.two_pow_pos _

/-- Numerators count quarters of the last place. -/
theorem scale_div_den : ((twoTo (e - 2).toNat : ℕ) : ℚ) / (ofBinary m e).den = 2 ^ (e - 2) := by
  show ((twoTo (e - 2).toNat : ℕ) : ℚ) / (twoTo (2 - e).toNat : ℕ) = 2 ^ (e - 2)
  rw [twoTo_eq, twoTo_eq]
  push_cast
  rw [← zpow_natCast, ← zpow_natCast, ← zpow_sub₀ (by norm_num)]
  congr 1
  omega

theorem value_div_den : ((ofBinary m e).value : ℚ) / (ofBinary m e).den = m * 2 ^ e := by
  show ((4 * m * twoTo (e - 2).toNat : ℕ) : ℚ) / _ = _
  rw [Nat.cast_mul, mul_div_assoc, scale_div_den, zpow_sub₀ (by norm_num)]
  push_cast
  field_simp

theorem high_div_den : ((ofBinary m e).high : ℚ) / (ofBinary m e).den = (m + 1 / 2) * 2 ^ e := by
  show (((4 * m + 2) * twoTo (e - 2).toNat : ℕ) : ℚ) / _ = _
  rw [Nat.cast_mul, mul_div_assoc, scale_div_den, zpow_sub₀ (by norm_num)]
  push_cast
  field_simp
  ring

/-- Half a unit of the last place at most lies below the double. -/
theorem low_div_den (hm : 0 < m) :
    (m - 1 / 2 : ℚ) * 2 ^ e ≤ ((ofBinary m e).low : ℚ) / (ofBinary m e).den ∧
      ((ofBinary m e).low : ℚ) / (ofBinary m e).den < m * 2 ^ e := by
  obtain ⟨part, hlow, hpos, hle⟩ : ∃ part : ℕ,
      (ofBinary m e).low = (4 * m - part) * twoTo (e - 2).toNat ∧ 0 < part ∧ part ≤ 2 := by
    show ∃ part : ℕ, (4 * m - if (m == twoTo 52 && e != -1074) = true then 1 else 2) *
      twoTo (e - 2).toNat = _ ∧ _
    split
    · exact ⟨1, rfl, by decide, by decide⟩
    · exact ⟨2, rfl, by decide, by decide⟩
  have hpow : (0 : ℚ) < 2 ^ e := by positivity
  have hpos' : (0 : ℚ) < part := by exact_mod_cast hpos
  have hle' : (part : ℚ) ≤ 2 := by exact_mod_cast hle
  have hvalue : ((ofBinary m e).low : ℚ) / (ofBinary m e).den = (m - part / 4) * 2 ^ e := by
    rw [hlow, Nat.cast_mul, mul_div_assoc, scale_div_den, zpow_sub₀ (by norm_num),
      Nat.cast_sub (by omega)]
    push_cast
    field_simp
  rw [hvalue]
  constructor
  · apply mul_le_mul_of_nonneg_right _ hpow.le
    linarith
  · apply mul_lt_mul_of_pos_right _ hpow
    linarith

end

section

variable {m : ℕ} {e : ℤ} {num den : ℕ}

/-- What is within the range is no farther from the double than half a unit of the last place. -/
theorem abs_sub_le_of_contains (hm : 0 < m) (hden : 0 < den)
    (h : (ofBinary m e).contains num den = true) :
    |(num : ℚ) / den - m * 2 ^ e| ≤ 2 ^ e / 2 := by
  have hrange : (ofBinary m e).low * den ≤ num * (ofBinary m e).den ∧
      num * (ofBinary m e).den ≤ (ofBinary m e).high * den := by
    unfold contains at h
    split at h
    · simpa only [Bool.and_eq_true, decide_eq_true_eq] using h
    · simp only [Bool.and_eq_true, decide_eq_true_eq] at h
      exact ⟨h.1.le, h.2.le⟩
  have hden' : (0 : ℚ) < den := by exact_mod_cast hden
  have hden'' : (0 : ℚ) < (ofBinary m e).den := by exact_mod_cast den_ofBinary_pos m e
  have hlow : ((ofBinary m e).low : ℚ) / (ofBinary m e).den ≤ num / den := by
    rw [div_le_div_iff₀ hden'' hden']
    exact_mod_cast hrange.1
  have hhigh : (num : ℚ) / den ≤ (ofBinary m e).high / (ofBinary m e).den := by
    rw [div_le_div_iff₀ hden' hden'']
    exact_mod_cast hrange.2
  have hleast := (low_div_den m e hm).1
  rw [high_div_den] at hhigh
  rw [abs_le]
  constructor <;> linarith

/-- The double itself is within the range. -/
theorem contains_of_eq (hm : 0 < m) (hden : 0 < den) (h : (num : ℚ) / den = m * 2 ^ e) :
    (ofBinary m e).contains num den = true := by
  have hpow : (0 : ℚ) < 2 ^ e := by positivity
  have hden' : (0 : ℚ) < den := by exact_mod_cast hden
  have hden'' : (0 : ℚ) < (ofBinary m e).den := by exact_mod_cast den_ofBinary_pos m e
  have hlow : (ofBinary m e).low * den < num * (ofBinary m e).den := by
    have hlt : ((ofBinary m e).low : ℚ) / (ofBinary m e).den < num / den := by
      rw [h]
      exact (low_div_den m e hm).2
    rw [div_lt_div_iff₀ hden'' hden'] at hlt
    exact_mod_cast hlt
  have hhigh : num * (ofBinary m e).den < (ofBinary m e).high * den := by
    have hlt : (num : ℚ) / den < (ofBinary m e).high / (ofBinary m e).den := by
      rw [h, high_div_den]
      gcongr
      linarith
    rw [div_lt_div_iff₀ hden' hden''] at hlt
    exact_mod_cast hlt
  unfold contains
  split
  · simp only [Bool.and_eq_true, decide_eq_true_eq]
    exact ⟨hlow.le, hhigh.le⟩
  · simp only [Bool.and_eq_true, decide_eq_true_eq]
    exact ⟨hlow, hhigh⟩

end

/-- The leading digit of a double stands at its magnitude. -/
theorem magnitude_bounds {m : ℕ} (e : ℤ) (hm : 0 < m) :
    (10 : ℚ) ^ (ofBinary m e).magnitude ≤ m * 2 ^ e ∧
      (m : ℚ) * 2 ^ e < 10 ^ ((ofBinary m e).magnitude + 1) := by
  have hden := den_ofBinary_pos m e
  have hvalue : 0 < (ofBinary m e).value :=
    Nat.mul_pos (Nat.mul_pos (by decide) hm) (by rw [twoTo_eq]; exact Nat.two_pow_pos _)
  rw [← value_div_den]
  generalize ofBinary m e = r at *
  have hden' : (0 : ℚ) < r.den := by exact_mod_cast hden
  have hvalue' : (0 : ℚ) < r.value := by exact_mod_cast hvalue
  unfold magnitude
  by_cases hle : r.den ≤ r.value
  · -- the whole part has as many digits as are in front of the point
    have hwhole : 0 < r.value / r.den := Nat.div_pos hle hden
    obtain ⟨d, hcount, hlow, hhigh⟩ := exists_digitCount hwhole
    rw [if_pos hle, hcount, Nat.cast_succ, add_sub_cancel_right, zpow_natCast]
    rw [Nat.le_div_iff_mul_le hden] at hlow
    rw [Nat.div_lt_iff_lt_mul hden] at hhigh
    constructor
    · rw [le_div_iff₀ hden']
      exact_mod_cast hlow
    · rw [div_lt_iff₀ hden', ← Nat.cast_succ, zpow_natCast]
      exact_mod_cast hhigh
  · -- the inverse has as many digits as there are places up to the first digit
    have hinverse : 0 < (r.den - 1) / r.value := Nat.div_pos (by omega) hvalue
    obtain ⟨d, hcount, hlow, hhigh⟩ := exists_digitCount hinverse
    rw [if_neg hle, hcount, Nat.cast_succ, neg_add, neg_add_cancel_right]
    rw [Nat.le_div_iff_mul_le hvalue] at hlow
    rw [Nat.div_lt_iff_lt_mul hvalue] at hhigh
    have hlow' : 10 ^ d * r.value < r.den := by omega
    have hhigh' : r.den ≤ 10 ^ (d + 1) * r.value := by omega
    constructor
    · rw [le_div_iff₀ hden', ← neg_add, ← Nat.cast_succ, zpow_neg, zpow_natCast,
        inv_mul_le_iff₀ (by positivity)]
      exact_mod_cast hhigh'
    · rw [div_lt_iff₀ hden', zpow_neg, zpow_natCast, lt_inv_mul_iff₀ (by positivity)]
      exact_mod_cast hlow'

end RoundingRange

/-! ## 4. Doubles that are short decimals -/

/-- The double is a decimal of at most fifteen digits, and the last of them is no zero. -/
structure IsDecimal (m : ℕ) (e : ℤ) (D : ℕ) (K : ℤ) : Prop where
  wide : 2 ^ 52 ≤ m
  value : (m : ℚ) * 2 ^ e = D * 10 ^ K
  lt : D < 10 ^ 15
  last : ¬ 10 ∣ D

/-- A multiple of a power of ten, as the two numbers that are compared with a range. -/
theorem grid_value (n : ℕ) (k : ℤ) :
    ((n * tenTo k.toNat : ℕ) : ℚ) / tenTo (-k).toNat = n * 10 ^ k := by
  rw [tenTo_eq, tenTo_eq]
  push_cast
  rw [mul_div_assoc, ← zpow_natCast, ← zpow_natCast, ← zpow_sub₀ (by norm_num)]
  congr 2
  omega

/-- Zeros that are taken off the end go to the exponent. -/
theorem Expansion.normalize_le (d : Expansion) :
    (d.normalize.digits : ℚ) * 10 ^ d.normalize.exponent ≤ d.digits * 10 ^ d.exponent := by
  unfold normalize
  extract_lets digits zeros
  split
  · exact le_rfl
  · show ((d.digits / tenTo zeros : ℕ) : ℚ) * 10 ^ (d.exponent + zeros) ≤ _
    have hdiv : ((d.digits / tenTo zeros * tenTo zeros : ℕ) : ℚ) ≤ d.digits := by
      exact_mod_cast Nat.div_mul_le_self d.digits (tenTo zeros)
    rw [zpow_add₀ (by norm_num), zpow_natCast, mul_comm ((10 : ℚ) ^ d.exponent), ← mul_assoc]
    apply mul_le_mul_of_nonneg_right _ (by positivity)
    rw [Nat.cast_mul, tenTo_eq] at hdiv
    push_cast at hdiv
    rwa [tenTo_eq]

/-- The digits of a double do not go beyond half a unit of its last place. -/
theorem shortest_le (tie : Tie) {m : ℕ} (e : ℤ) (hm : 0 < m) :
    ((shortest tie m e).digits : ℚ) * 10 ^ (shortest tie m e).exponent ≤ (m + 1 / 2) * 2 ^ e := by
  unfold shortest
  extract_lets range top found
  refine (Expansion.normalize_le _).trans ?_
  cases hfound : found with
  | some d =>
    rw [Option.getD_some]
    obtain ⟨n, -, hn⟩ := List.exists_of_findSome?_eq_some hfound
    obtain ⟨hexponent, -, hcontains⟩ := RoundingRange.finds_of_onGrid? hn
    have hdown : 0 < tenTo (-(top - n)).toNat := Nat.pow_pos (by decide)
    have hnear := RoundingRange.abs_sub_le_of_contains hm hdown hcontains
    rw [grid_value, ← hexponent] at hnear
    have := (abs_le.mp hnear).2
    linarith
  | none =>
    -- the digits of the value itself, cut off
    have hden : (0 : ℚ) < range.den := by exact_mod_cast RoundingRange.den_ofBinary_pos m e
    have hcut : ((range.value * tenTo 17 / range.den : ℕ) : ℚ) ≤
        range.value / range.den * 10 ^ 17 := by
      have hle : ((range.value * tenTo 17 / range.den : ℕ) : ℚ) ≤
          ((range.value * tenTo 17 : ℕ) : ℚ) / range.den := Nat.cast_div_le
      rw [Nat.cast_mul, tenTo_eq, Nat.cast_pow, Nat.cast_ofNat, mul_div_right_comm] at hle
      exact hle
    have hpow : (0 : ℚ) < 2 ^ e := by positivity
    rw [Option.getD_none]
    show ((range.value * tenTo 17 / range.den : ℕ) : ℚ) * 10 ^ (-17 : ℤ) ≤ _
    rw [show range.value / (range.den : ℚ) = m * 2 ^ e from RoundingRange.value_div_den m e] at hcut
    calc ((range.value * tenTo 17 / range.den : ℕ) : ℚ) * 10 ^ (-17 : ℤ)
        ≤ (m * 2 ^ e * 10 ^ 17) * 10 ^ (-17 : ℤ) := by gcongr
      _ = m * 2 ^ e := by rw [mul_assoc, ← zpow_natCast, ← zpow_add₀ (by norm_num)]; simp
      _ ≤ (m + 1 / 2) * 2 ^ e := by gcongr; linarith

/-- A number that does not end in a zero has none to drop. -/
theorem Expansion.normalize_of_not_dvd {D : ℕ} {K : ℤ} (hD : ¬ 10 ∣ D) :
    normalize ⟨D, K⟩ = ⟨D, K⟩ := by
  have hpos := pos_of_not_dvd hD
  have hzeros : (Nat.toDigits 10 D).reverse.takeWhile (· == '0') = [] := by
    rw [List.takeWhile_eq_nil_iff]
    intro hlength
    have hlast := getLast?_toDigits_ne hD
    rw [List.getLast?_eq_head?_reverse, List.head?_eq_getElem?, List.getElem?_eq_getElem hlength]
      at hlast
    simpa using hlast
  unfold normalize
  simp only [hzeros, if_neg hpos.ne']
  rw [List.length_nil, tenTo_eq, pow_zero, Nat.div_one, Nat.cast_zero, add_zero]

/-- The first step that finds something decides. -/
theorem findSome?_range {α : Type} {f : ℕ → Option α} {n k : ℕ} {a : α} (hn : n < k)
    (hnone : ∀ i < n, f i = none) (ha : f n = some a) : (List.range k).findSome? f = some a := by
  obtain ⟨t, rfl⟩ : ∃ t, k = n + (t + 1) := ⟨k - n - 1, by omega⟩
  have hfront : (List.range n).findSome? f = none := by
    rw [List.findSome?_eq_none_iff]
    intro i hi
    exact hnone i (List.mem_range.mp hi)
  rw [List.range_add, List.findSome?_append, hfront, Option.none_or, List.range_succ_eq_map,
    List.map_cons, List.findSome?_cons]
  rw [add_zero, ha]

namespace IsDecimal

variable {m D : ℕ} {e K : ℤ} (h : IsDecimal m e D K)
include h

theorem pos : 0 < m := Nat.lt_of_lt_of_le (by decide) h.wide

theorem digits_pos : 0 < D := pos_of_not_dvd h.last

/-- A unit of the double's last place is less than one of the decimal's. -/
theorem unit_lt : (2 : ℚ) ^ e < 10 ^ K := by
  have hwide : (2 : ℚ) ^ 52 ≤ m := by exact_mod_cast h.wide
  have hlt : (D : ℚ) < 10 ^ 15 := by exact_mod_cast h.lt
  have hpow : (0 : ℚ) < 2 ^ e := by positivity
  have hpow' : (0 : ℚ) < 10 ^ K := by positivity
  have hall : (2 : ℚ) ^ 52 * 2 ^ e < 2 ^ 52 * 10 ^ K := by
    calc (2 : ℚ) ^ 52 * 2 ^ e ≤ m * 2 ^ e := by gcongr
      _ = D * 10 ^ K := h.value
      _ < 10 ^ 15 * 10 ^ K := by gcongr
      _ ≤ 2 ^ 52 * 10 ^ K := by gcongr; norm_num
  exact lt_of_mul_lt_mul_left hall (by positivity)

/-- No other decimal with as many places is in the range. -/
theorem eq_of_contains {c num den : ℕ} (hden : 0 < den) (hc : (num : ℚ) / den = c * 10 ^ K)
    (hcontains : (RoundingRange.ofBinary m e).contains num den = true) : c = D := by
  have hnear := RoundingRange.abs_sub_le_of_contains h.pos hden hcontains
  have hpow : (0 : ℚ) < 10 ^ K := by positivity
  rw [hc, h.value, ← sub_mul, abs_mul, abs_of_pos hpow] at hnear
  have hlt : |(c : ℚ) - D| < 1 := by
    have hunit := h.unit_lt
    by_contra hge
    have : (1 : ℚ) * 10 ^ K ≤ |(c : ℚ) - D| * 10 ^ K := by gcongr; linarith
    linarith
  have hlt' : |(c : ℤ) - D| < 1 := by exact_mod_cast hlt
  rw [Int.abs_lt_one_iff] at hlt'
  omega

theorem onGrid?_eq_none (tie : Tie) {k : ℤ} (hk : K < k) :
    (RoundingRange.ofBinary m e).onGrid? tie k = none := by
  have hoff (n : ℕ) :
      (RoundingRange.ofBinary m e).contains (n * tenTo k.toNat) (tenTo (-k).toNat) = false := by
    rw [← Bool.not_eq_true]
    intro hcontains
    -- a multiple of a greater power of ten would end in a zero
    obtain ⟨t, rfl⟩ : ∃ t : ℕ, k = K + (t + 1 : ℕ) := ⟨(k - K - 1).toNat, by omega⟩
    have hvalue : ((n * tenTo (K + (t + 1 : ℕ)).toNat : ℕ) : ℚ) /
        tenTo (-(K + (t + 1 : ℕ))).toNat = ((n * 10 ^ (t + 1) : ℕ) : ℚ) * 10 ^ K := by
      rw [grid_value, zpow_add₀ (by norm_num), zpow_natCast]
      push_cast
      ring
    have hD : n * 10 ^ (t + 1) = D :=
      h.eq_of_contains (Nat.pow_pos (by decide)) hvalue hcontains
    apply h.last
    rw [← hD, pow_succ]
    exact Dvd.intro_left _ (Nat.mul_assoc n _ _)
  unfold RoundingRange.onGrid?
  simp only [hoff, Bool.and_false, Bool.false_eq_true, if_false]

theorem onGrid?_eq_some (tie : Tie) :
    (RoundingRange.ofBinary m e).onGrid? tie K = some ⟨D, K⟩ := by
  have hpos := h.digits_pos
  have hden := RoundingRange.den_ofBinary_pos m e
  have hup : 0 < tenTo K.toNat := Nat.pow_pos (by decide)
  have hdown : 0 < tenTo (-K).toNat := Nat.pow_pos (by decide)
  have hbelow : (RoundingRange.ofBinary m e).value * tenTo (-K).toNat /
      ((RoundingRange.ofBinary m e).den * tenTo K.toNat) = D := by
    have hvalue : ((RoundingRange.ofBinary m e).value : ℚ) / (RoundingRange.ofBinary m e).den =
        ((D * tenTo K.toNat : ℕ) : ℚ) / tenTo (-K).toNat := by
      rw [RoundingRange.value_div_den, h.value, grid_value]
    rw [div_eq_div_iff (by positivity) (by positivity)] at hvalue
    have hvalue' : (RoundingRange.ofBinary m e).value * tenTo (-K).toNat =
        D * ((RoundingRange.ofBinary m e).den * tenTo K.toNat) := by
      rw [Nat.mul_comm (RoundingRange.ofBinary m e).den, ← Nat.mul_assoc]
      exact_mod_cast hvalue
    rw [hvalue', Nat.mul_div_cancel _ (Nat.mul_pos hden hup)]
  have hhas : (RoundingRange.ofBinary m e).contains (D * tenTo K.toNat) (tenTo (-K).toNat) = true :=
    RoundingRange.contains_of_eq h.pos hdown ((grid_value D K).trans h.value.symm)
  have hnext : (RoundingRange.ofBinary m e).contains ((D + 1) * tenTo K.toNat)
      (tenTo (-K).toNat) = false := by
    rw [← Bool.not_eq_true]
    intro hcontains
    have := h.eq_of_contains hdown (grid_value (D + 1) K) hcontains
    omega
  unfold RoundingRange.onGrid?
  simp only [hbelow, hhas, hnext, bne_iff_ne.mpr hpos.ne', Bool.and_true, Bool.and_false,
    Bool.false_eq_true, if_false, if_true]

/-- The decimal's place is among those that are tried. -/
theorem exists_steps : ∃ n : ℕ, n < 15 ∧ (RoundingRange.ofBinary m e).magnitude - n = K := by
  obtain ⟨hle, hlt⟩ := RoundingRange.magnitude_bounds e h.pos
  generalize (RoundingRange.ofBinary m e).magnitude = top at hle hlt
  rw [h.value] at hle hlt
  have hone : (1 : ℚ) ≤ D := by exact_mod_cast h.digits_pos
  have hfifteen : (D : ℚ) < 10 ^ 15 := by exact_mod_cast h.lt
  have hpow : (0 : ℚ) < 10 ^ K := by positivity
  have hK : K < top + 1 := by
    have : (10 : ℚ) ^ K < 10 ^ (top + 1) := by
      calc (10 : ℚ) ^ K = 1 * 10 ^ K := (one_mul _).symm
        _ ≤ D * 10 ^ K := by gcongr
        _ < 10 ^ (top + 1) := hlt
    exact (zpow_lt_zpow_iff_right₀ (by norm_num)).mp this
  have htop : top < 15 + K := by
    have : (10 : ℚ) ^ top < 10 ^ (15 + K) := by
      calc (10 : ℚ) ^ top ≤ D * 10 ^ K := hle
        _ < 10 ^ 15 * 10 ^ K := by gcongr
        _ = 10 ^ (15 + K) := by rw [zpow_add₀ (by norm_num)]; norm_num
    exact (zpow_lt_zpow_iff_right₀ (by norm_num)).mp this
  exact ⟨(top - K).toNat, by omega, by omega⟩

theorem shortest_eq (tie : Tie) : shortest tie m e = ⟨D, K⟩ := by
  obtain ⟨n, hn, hK⟩ := h.exists_steps
  have hfound : (List.range 17).findSome? (fun (i : ℕ) =>
      (RoundingRange.ofBinary m e).onGrid? tie ((RoundingRange.ofBinary m e).magnitude - i)) =
        some ⟨D, K⟩ := by
    apply findSome?_range (hn.trans (by decide))
    · intro i hi
      exact h.onGrid?_eq_none tie (by omega)
    · rw [hK]
      exact h.onGrid?_eq_some tie
  unfold shortest
  simp only [hfound, Option.getD_some]
  exact Expansion.normalize_of_not_dvd h.last

end IsDecimal

/-! ## 5. Numbers in messages -/

theorem IsDecimal.writesDecimal {m D : ℕ} {e K : ℤ} (h : IsDecimal m e D K) :
    WritesDecimal (messageStyle.writeMagnitude m e) (D * (10 : ℚ) ^ K) := by
  have hwritten := writesDecimal_writePositional h.last K
  unfold NumberStyle.writeMagnitude
  rw [if_neg h.pos.ne', h.shortest_eq]
  exact hwritten

/-- A message writes out a positive number of at most fifteen digits. -/
theorem exists_writesDecimal_inMessage {x : Float} {D : ℕ} {K : ℤ}
    (h : Denotes x (D * (10 : ℚ) ^ K)) (hpos : 0 < D) (hlt : D < 10 ^ 15) :
    ∃ figure, inMessage x = String.ofList figure ∧ WritesDecimal figure (D * (10 : ℚ) ^ K) := by
  have hvalue : (0 : ℚ) < D * 10 ^ K := by positivity
  rcases ofFloat_of_denotes h with ⟨hzero, -⟩ | ⟨s, m, e, hnormal, hq, hfields⟩
  · exact absurd hzero hvalue.ne'
  have hm := hnormal.pos
  have hmagnitude : (0 : ℚ) < m * 2 ^ e := by positivity
  cases s
  · rw [hq, signed_negative] at hvalue
    linarith
  · -- zeros at the end are left to the exponent
    obtain ⟨t, D', hlast, hD⟩ := Nat.exists_eq_pow_mul_and_not_dvd hpos.ne' 10 (by decide)
    have hsame : (D : ℚ) * 10 ^ K = D' * 10 ^ (K + t) := by
      rw [hD, zpow_add₀ (by norm_num), zpow_natCast]
      push_cast
      ring
    have hle : D' ≤ D := by
      rw [hD]
      exact Nat.le_mul_of_pos_left D' (Nat.pow_pos (by decide))
    have hdecimal : IsDecimal m e D' (K + t) :=
      ⟨hnormal.le, by rw [← hsame, hq, signed_positive], hle.trans_lt hlt, hlast⟩
    refine ⟨messageStyle.writeMagnitude m e, ?_, ?_⟩
    · unfold inMessage NumberStyle.write
      rw [hfields]
      rfl
    · rw [hsame]
      exact hdecimal.writesDecimal

end TextScore.Decimal

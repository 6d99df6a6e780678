import Mathlib
import TextScore.Decimal.Numeral
import TextScore.Decimal.Shortest

/-!
# Shortest — the digits that stand for a double

A finite double has a mantissa and an exponent, and the digits found for it are those of a positive
number: no zeros lead them.
-/

namespace TextScore.Decimal

/-! ## 1. Digits -/

/-- Digits, of which there is at least one. -/
structure Digits (cs : List Char) : Prop where
  ne_nil : cs ≠ []
  digit : ∀ c ∈ cs, c.isDigit = true

theorem digits_toDigits (n : Nat) : Digits (Nat.toDigits 10 n) where
  ne_nil := Nat.toDigits_ne_nil
  digit _ hc := Nat.isDigit_of_mem_toDigits (by decide) (by decide) hc

theorem Digits.append {as bs : List Char} (ha : Digits as) (hb : ∀ c ∈ bs, c.isDigit = true) :
    Digits (as ++ bs) where
  ne_nil := List.append_ne_nil_of_left_ne_nil ha.ne_nil bs
  digit := List.forall_mem_append.mpr ⟨ha.digit, hb⟩

theorem isDigit_of_mem_replicate {k : Nat} : ∀ c ∈ List.replicate k '0', c.isDigit = true := by
  intro c hc
  rw [List.eq_of_mem_replicate hc]
  rfl

theorem takeDigits_append {digits rest : List Char} (hdigits : ∀ c ∈ digits, c.isDigit = true)
    (hrest : ∀ c ∈ rest.head?, c.isDigit = false) : takeDigits (digits ++ rest) = (digits, rest) := by
  have hnone : rest.takeWhile Char.isDigit = [] ∧ rest.dropWhile Char.isDigit = rest := by
    cases rest with
    | nil => exact ⟨rfl, rfl⟩
    | cons c rest =>
      have hc : ¬ c.isDigit = true := Bool.eq_false_iff.mp (hrest c rfl)
      exact ⟨List.takeWhile_cons_of_neg hc, List.dropWhile_cons_of_neg hc⟩
  unfold takeDigits
  rw [List.takeWhile_append_of_pos hdigits, List.dropWhile_append_of_pos hdigits, hnone.1, hnone.2,
    List.append_nil]

theorem ofDigitChars_lt {cs : List Char} (h : ∀ c ∈ cs, c.isDigit = true) :
    Nat.ofDigitChars 10 cs 0 < 10 ^ cs.length := by
  induction cs with
  | nil => decide
  | cons c cs ih =>
    have hdigit : c.toNat - '0'.toNat ≤ 9 := by
      have hc : c.toNat ≤ 57 := (Char.isDigit_iff_toNat.mp (h c List.mem_cons_self)).2
      show c.toNat - 48 ≤ 9
      omega
    have hrest := ih fun d hd => h d (List.mem_cons_of_mem c hd)
    rw [Nat.ofDigitChars_cons, Nat.mul_zero, Nat.zero_add, Nat.ofDigitChars_eq_ofDigitChars_zero,
      List.length_cons, Nat.pow_succ]
    have := Nat.mul_le_mul_left (10 ^ cs.length) hdigit
    omega

/-- A positive number has no leading zero. -/
theorem head_toDigits_ne {n : Nat} (hn : 0 < n) : (Nat.toDigits 10 n).head? ≠ some '0' := by
  induction n using Nat.strongRecOn with
  | ind n ih =>
    by_cases hsmall : n < 10
    · rw [Nat.toDigits_of_lt_base hsmall]
      interval_cases n <;> decide
    · have hlead := ih (n / 10) (by omega) (by omega)
      rw [Nat.toDigits_of_base_le (by decide) (by omega),
        List.head?_append_of_ne_nil _ Nat.toDigits_ne_nil]
      exact hlead

/-! ## 2. Shortest decimals -/

/-- A multiple of `10 ^ k` that reads back, and not zero. -/
structure RoundingRange.Finds (r : RoundingRange) (k : Int) (d : Expansion) : Prop where
  exponent : d.exponent = k
  pos : 0 < d.digits
  contains : r.contains (d.digits * tenTo k.toNat) (tenTo (-k).toNat) = true

theorem RoundingRange.finds_of_onGrid? {r : RoundingRange} {tie : Tie} {k : Int}
    {d : Expansion} (h : r.onGrid? tie k = some d) : r.Finds k d := by
  unfold onGrid? at h
  extract_lets up down below above hasBelow hasAbove twice middle at h
  have hbelow : hasBelow = true → r.Finds k ⟨below, k⟩ := by
    intro hhas
    obtain ⟨hne, hcontains⟩ := Bool.and_eq_true_iff.mp hhas
    exact ⟨rfl, Nat.pos_of_ne_zero (bne_iff_ne.mp hne), hcontains⟩
  have habove : hasAbove = true → r.Finds k ⟨above, k⟩ := fun hhas =>
    ⟨rfl, Nat.succ_pos below, hhas⟩
  split at h
  next hboth =>
    obtain ⟨hhasBelow, hhasAbove⟩ := Bool.and_eq_true_iff.mp hboth
    have hlow := hbelow hhasBelow
    have hhigh := habove hhasAbove
    split at h
    next => rw [← Option.some.inj h]; exact hlow
    next =>
      split at h
      next => rw [← Option.some.inj h]; exact hhigh
      next =>
        split at h
        next => rw [← Option.some.inj h]; exact hhigh
        next =>
          rw [← Option.some.inj h]
          by_cases heven : below % 2 = 0
          · rwa [if_pos heven]
          · rwa [if_neg heven]
  next =>
    split at h
    next hhas => rw [← Option.some.inj h]; exact hbelow hhas
    next =>
      split at h
      next hhas => rw [← Option.some.inj h]; exact habove hhas
      next => cases h

/-- Taking zeros off the end of a positive number leaves a positive one. -/
theorem Expansion.digits_normalize_pos {d : Expansion} (h : 0 < d.digits) :
    0 < d.normalize.digits := by
  unfold normalize
  extract_lets digits zeros
  rw [if_neg (Nat.ne_of_gt h)]
  apply Nat.div_pos _ (Nat.pow_pos (by decide))
  -- not all digits are zeros, since the first one is not
  have hfewer : zeros < digits.length := by
    by_contra hall
    have hzeros : digits.reverse.takeWhile (· == '0') = digits.reverse := by
      apply List.IsPrefix.eq_of_length_le (List.takeWhile_prefix _)
      rw [List.length_reverse]
      exact Nat.le_of_not_lt hall
    obtain ⟨first, others, hdigits⟩ := List.exists_cons_of_ne_nil (digits_toDigits d.digits).ne_nil
    have hmem : first ∈ digits.reverse := by
      rw [List.mem_reverse]
      show first ∈ Nat.toDigits 10 d.digits
      rw [hdigits]
      exact List.mem_cons_self
    have hfirst : first = '0' := by
      rw [← hzeros] at hmem
      exact beq_iff_eq.mp (List.mem_takeWhile_imp (p := (· == '0')) hmem)
    apply head_toDigits_ne h
    rw [hdigits, hfirst, List.head?_cons]
  show 10 ^ zeros ≤ d.digits
  by_cases hnone : zeros = 0
  · rw [hnone]
    exact h
  · have hlong : ¬ digits.length ≤ zeros := Nat.not_le_of_lt hfewer
    rw [Nat.length_toDigits_le_iff (by decide) (Nat.pos_of_ne_zero hnone)] at hlong
    exact Nat.le_of_not_lt hlong

/-- The shortest decimal is positive, if any was found at all. -/
theorem shortest_cases (tie : Tie) (mantissa : Nat) (exponent : Int) :
    0 < (shortest tie mantissa exponent).digits ∨
      shortest tie mantissa exponent = ⟨0, -17⟩ := by
  unfold shortest
  extract_lets range top found
  cases hfound : found with
  | some d =>
    obtain ⟨n, -, hn⟩ := List.exists_of_findSome?_eq_some hfound
    exact .inl (Expansion.digits_normalize_pos (RoundingRange.finds_of_onGrid? hn).pos)
  | none =>
    rw [Option.getD_none]
    by_cases hzero : range.value * tenTo 17 / range.den = 0
    · rw [hzero]
      exact .inr rfl
    · exact .inl (Expansion.digits_normalize_pos (Nat.pos_of_ne_zero hzero))

/-! ## 3. Doubles -/

/-- A double that is finite has a mantissa and an exponent. -/
theorem exists_finite_of_isFinite {x : Float} (h : x.isFinite = true) :
    ∃ negative mantissa exponent,
      Binary64.ofFloat x = .finite negative mantissa exponent := by
  have hbiased : x.toBits.toNat / 2 ^ 52 % 2 ^ 11 ≠ 2047 := by
    intro hbiased
    have hones : @Float.Model.UnpackedFloat.unpackExponent .binary64 x.toBits.toBitVec = -1#_ := by
      apply BitVec.eq_of_toNat_eq
      show (BitVec.extractLsb 62 52 x.toBits.toBitVec).toNat = _
      rw [BitVec.extractLsb_toNat, Nat.shiftRight_eq_div_pow]
      exact hbiased
    have hnot : x.isFinite = false := by
      show (Float.Model.UnpackedFloat.unpack .binary64 x.toBits.toBitVec).isFinite = false
      unfold Float.Model.UnpackedFloat.unpack
      simp only [hones, if_true]
      split <;> rfl
    rw [h] at hnot
    cases hnot
  unfold Binary64.ofFloat Binary64.ofBits
  have hb : x.toBits.toNat / twoTo 52 % twoTo 11 ≠ 2047 := hbiased
  simp only [hb, if_false]
  split
  next => exact ⟨_, _, _, rfl⟩
  next => exact ⟨_, _, _, rfl⟩

end TextScore.Decimal

import Mathlib
import TextScore.Calendar.Timestamp
import TextScore.Proofs.Calendar.Date
import TextScore.Proofs.Decimal.Shortest
import TextScore.Proofs.Text.Lines

/-!
# Written — instants are read back

Every instant that a text can stand for is read back from how it is written: the parts have a fixed
width, the year is set off by a sign where it is longer, and a leap second is written as the sixtieth.
-/

namespace TextScore.Calendar

open TextScore.Text TextScore.Decimal

/-- The year is one that is read, and only the last second of a minute can be a leap second. -/
structure Timestamp.Legible (t : Timestamp) : Prop where
  year : Timestamp.yearInRange (Date.ofDays (t.seconds / Timestamp.secondsPerDay)).year = true
  nanos : t.nanos < 2000000000
  leap : 1000000000 ≤ t.nanos → t.seconds % 60 = 59

namespace Timestamp

/-! ## 1. Numbers of a fixed width -/

section

variable {width n : ℕ}

theorem digits_padded (width n : ℕ) : Digits (padded width n) where
  ne_nil := List.append_ne_nil_of_right_ne_nil _ Nat.toDigits_ne_nil
  digit := List.forall_mem_append.mpr ⟨isDigit_of_mem_replicate, (digits_toDigits n).digit⟩

theorem length_padded (hwidth : 0 < width) (hn : n < 10 ^ width) :
    (padded width n).length = width := by
  have hle := (Nat.length_toDigits_le_iff (by decide) hwidth).mpr hn
  unfold padded
  rw [List.length_append, List.length_replicate]
  exact Nat.sub_add_cancel hle

theorem ofDigitChars_padded (width n : ℕ) : Nat.ofDigitChars 10 (padded width n) 0 = n := by
  unfold padded
  rw [Nat.ofDigitChars_append, Nat.ofDigitChars_replicate_zero, Nat.mul_zero,
    Nat.ofDigitChars_ten_toDigits]

theorem isBlank_head_padded_append (width n : ℕ) (rest : List Char) :
    ∀ c ∈ (padded width n ++ rest).head?, isBlank c = false := by
  intro c hc
  rw [List.head?_append_of_ne_nil _ (digits_padded width n).ne_nil] at hc
  exact isBlank_eq_false_of_isDigit ((digits_padded width n).digit c (List.mem_of_mem_head? hc))

/-- A number is read from its width, whatever follows. -/
theorem readNumber?_padded (hwidth : 0 < width) (hn : n < 10 ^ width) (rest : List Char) :
    readNumber? width (padded width n ++ rest) = some (n, rest) := by
  have hdigits := digits_padded width n
  have hlength := length_padded hwidth hn
  have htake : ((padded width n ++ rest).takeWhile Char.isDigit).take width = padded width n := by
    rw [List.takeWhile_append_of_pos hdigits.digit, List.take_left' hlength]
  unfold readNumber?
  simp only [trimLeft_eq_self (isBlank_head_padded_append width n rest), htake,
    List.isEmpty_eq_false_iff.mpr hdigits.ne_nil, Bool.false_eq_true, if_false,
    ofDigitChars_padded, List.drop_left]

/-- A year without a sign has four digits at most. -/
theorem readYear?_of_digit {first : Char} (hfirst : first.isDigit = true) (rest : List Char) :
    readYear? (first :: rest) =
      (readNumber? 4 (first :: rest)).map fun read => ((read.1 : ℤ), read.2) := by
  have htrim : trimLeft (first :: rest) = first :: rest :=
    trimLeft_eq_self fun c hc => Option.some.inj hc ▸ isBlank_eq_false_of_isDigit hfirst
  unfold readYear?
  rw [htrim]
  extract_lets signed
  split
  next hminus =>
    obtain rfl := (List.cons.inj hminus).1
    cases hfirst
  next hplus =>
    obtain rfl := (List.cons.inj hplus).1
    cases hfirst
  next => rfl

theorem readYear?_yearChars (year : ℤ) (rest : List Char) :
    readYear? (yearChars year ++ '-' :: rest) = some (year, '-' :: rest) := by
  have hdigits := digits_padded 4 year.natAbs
  have htake : takeDigits (padded 4 year.natAbs ++ '-' :: rest) =
      (padded 4 year.natAbs, '-' :: rest) :=
    takeDigits_append hdigits.digit (by simp)
  have hempty : (padded 4 year.natAbs).isEmpty = false :=
    List.isEmpty_eq_false_iff.mpr hdigits.ne_nil
  unfold yearChars
  by_cases hshort : 0 ≤ year ∧ year ≤ 9999
  · have hread : readNumber? 4 (padded 4 year.natAbs ++ '-' :: rest) =
        some (year.natAbs, '-' :: rest) :=
      readNumber?_padded (by decide) (by omega) _
    obtain ⟨first, others, hcons⟩ := List.exists_cons_of_ne_nil hdigits.ne_nil
    have hfirst : first.isDigit = true := hdigits.digit first (hcons ▸ List.mem_cons_self)
    rw [if_pos hshort]
    rw [hcons, List.cons_append] at hread ⊢
    rw [readYear?_of_digit hfirst, hread, Option.map_some, Int.natAbs_of_nonneg hshort.1]
  · rw [if_neg hshort]
    unfold readYear?
    by_cases hneg : year < 0
    · rw [if_pos hneg, List.cons_append, trimLeft_eq_self (by simp; decide)]
      simp only [htake, hempty, Bool.false_eq_true, if_false, Option.map_some, ofDigitChars_padded]
      congr 2
      omega
    · rw [if_neg hneg, List.cons_append, trimLeft_eq_self (by simp; decide)]
      simp only [htake, hempty, Bool.false_eq_true, if_false, Option.map_some, ofDigitChars_padded]
      congr 2
      omega

/-! ## 2. Fractions -/

theorem readFraction?_padded {k : ℕ} (hk : 0 < k) (hle : k ≤ 9) (hn : n < 10 ^ k) :
    readFraction? ('.' :: (padded k n ++ ['Z'])) = some (n * 10 ^ (9 - k), ['Z']) := by
  have htake : takeDigits (padded k n ++ ['Z']) = (padded k n, ['Z']) :=
    takeDigits_append (digits_padded k n).digit (by simp)
  have hnine : (padded k n ++ List.replicate 9 '0').take 9 =
      padded k n ++ List.replicate (9 - k) '0' := by
    rw [List.take_append, length_padded hk hn, List.take_of_length_le (by rw [length_padded hk hn]; exact hle),
      List.take_replicate, Nat.min_eq_left (by omega)]
  unfold readFraction?
  simp only [htake, hnine, List.isEmpty_eq_false_iff.mpr (digits_padded k n).ne_nil,
    Bool.false_eq_true, if_false, Nat.ofDigitChars_append, ofDigitChars_padded,
    Nat.ofDigitChars_replicate_zero, Nat.mul_comm]

theorem readFraction?_fractionChars (hn : n < 1000000000) :
    readFraction? (fractionChars n ++ ['Z']) = some (n, ['Z']) := by
  unfold fractionChars
  split
  next hzero => rw [hzero]; rfl
  next =>
  split
  next hthree =>
    rw [List.cons_append, readFraction?_padded (by decide) (by decide) (by omega)]
    congr 2
    omega
  next =>
  split
  next hsix =>
    rw [List.cons_append, readFraction?_padded (by decide) (by decide) (by omega)]
    congr 2
    omega
  next =>
    rw [List.cons_append, readFraction?_padded (by decide) (by decide) (by omega)]
    congr 2
    omega

end

/-! ## 3. Instants -/

theorem readMark?_cons {mark : Char} (h : isBlank mark = false) (rest : List Char) :
    readMark? mark (mark :: rest) = some rest := by
  have hsame : trimLeft (mark :: rest) = mark :: rest :=
    trimLeft_eq_self fun c hc => Option.some.inj hc ▸ h
  unfold readMark?
  rw [hsame]
  exact if_pos rfl

/-- Two digits, as most parts of an instant have. -/
theorem readNumber?_two {n : ℕ} (hn : n < 100) (rest : List Char) :
    readNumber? 2 (padded 2 n ++ rest) = some (n, rest) :=
  readNumber?_padded (by decide) hn rest

theorem lt_of_isValid {date : Date} (h : date.isValid = true) : date.month < 100 ∧ date.day < 100 := by
  have hlength : daysInMonth date.year date.month ≤ 31 := by
    unfold daysInMonth
    split
    · split <;> decide
    all_goals decide
  unfold Date.isValid at h
  simp only [Bool.and_eq_true, decide_eq_true_eq] at h
  omega

/-- An instant is made again from its parts. -/
theorem ofParts?_parts {t : Timestamp} (h : t.Legible) {second : ℕ}
    (hsecond : t.seconds % secondsPerDay = second) :
    ofParts? (Date.ofDays (t.seconds / secondsPerDay)) (second / 3600) (second / 60 % 60)
      (second % 60 + t.nanos / 1000000000) (t.nanos % 1000000000) 0 = some t := by
  obtain ⟨hyear, hnanos, hleap⟩ := h
  obtain ⟨seconds, nanos⟩ := t
  simp only at hyear hnanos hleap hsecond ⊢
  -- the second is written as the sixtieth exactly when it is a leap second
  have hshown : second % 60 + nanos / 1000000000 = 60 ↔ 1000000000 ≤ nanos := by
    unfold secondsPerDay at hsecond
    omega
  have htotal : seconds / secondsPerDay * secondsPerDay + ((second / 3600 : ℕ) * 3600 +
      (second / 60 % 60 : ℕ) * 60 + (if second % 60 + nanos / 1000000000 = 60 then 59
        else (second % 60 + nanos / 1000000000 : ℕ))) - 0 = seconds := by
    unfold secondsPerDay at hsecond ⊢
    split <;> omega
  have hfits : second / 3600 < 24 ∧ second / 60 % 60 < 60 ∧
      second % 60 + nanos / 1000000000 ≤ 60 := by
    unfold secondsPerDay at hsecond
    omega
  have hfraction : nanos % 1000000000 + (if second % 60 + nanos / 1000000000 = 60 then 1000000000
      else 0) = nanos := by
    split <;> omega
  unfold ofParts?
  simp only [toDays_ofDays, isValid_ofDays, htotal, hyear, hfits, hfraction]
  rfl

theorem ofString?_toString {t : Timestamp} (h : t.Legible) : ofString? t.toString = some t := by
  obtain ⟨hmonth, hday⟩ := lt_of_isValid (isValid_ofDays (t.seconds / secondsPerDay))
  obtain ⟨second, hsecond⟩ : ∃ second : ℕ, t.seconds % secondsPerDay = second :=
    ⟨(t.seconds % secondsPerDay).toNat, by unfold secondsPerDay; omega⟩
  have hparts := ofParts?_parts h hsecond
  have hclock : second < 86400 := by
    unfold secondsPerDay at hsecond
    omega
  have hshown : second % 60 + t.nanos / 1000000000 < 100 := by
    have := h.nanos
    omega
  have hfraction := readFraction?_fractionChars (Nat.mod_lt t.nanos (by decide : 0 < 1000000000))
  have hdash (rest : List Char) : readMark? '-' ('-' :: rest) = some rest :=
    readMark?_cons (by decide) rest
  have hcolon (rest : List Char) : readMark? ':' (':' :: rest) = some rest :=
    readMark?_cons (by decide) rest
  have hzone : readOffset? ['Z'] = some (0, []) := by decide
  unfold ofString? toString
  rw [String.toList_ofList]
  unfold chars
  simp only [List.append_assoc, List.cons_append, hsecond, Int.toNat_natCast]
  generalize Date.ofDays (t.seconds / secondsPerDay) = date at *
  -- part by part, as they are read
  unfold ofChars?
  refine Option.bind_eq_some_iff.mpr ⟨_, readYear?_yearChars _ _, ?_⟩
  refine Option.bind_eq_some_iff.mpr ⟨_, hdash _, ?_⟩
  refine Option.bind_eq_some_iff.mpr ⟨_, readNumber?_two hmonth _, ?_⟩
  refine Option.bind_eq_some_iff.mpr ⟨_, hdash _, ?_⟩
  refine Option.bind_eq_some_iff.mpr ⟨_, readNumber?_two hday _, ?_⟩
  refine Option.bind_eq_some_iff.mpr ⟨'T', rfl, ?_⟩
  refine Option.bind_eq_some_iff.mpr ⟨_, readNumber?_two (by omega) _, ?_⟩
  refine Option.bind_eq_some_iff.mpr ⟨_, hcolon _, ?_⟩
  refine Option.bind_eq_some_iff.mpr ⟨_, readNumber?_two (by omega) _, ?_⟩
  refine Option.bind_eq_some_iff.mpr ⟨_, hcolon _, ?_⟩
  refine Option.bind_eq_some_iff.mpr ⟨_, readNumber?_two hshown _, ?_⟩
  refine Option.bind_eq_some_iff.mpr ⟨_, hfraction, ?_⟩
  exact Option.bind_eq_some_iff.mpr ⟨_, hzone, hparts⟩

/-! ## 4. What is read -/

theorem readFraction?_lt {cs rest : List Char} {n : ℕ} (h : readFraction? cs = some (n, rest)) :
    n < 1000000000 := by
  unfold readFraction? at h
  split at h
  next behind =>
    have hdigits : ∀ c ∈ (takeDigits behind).1 ++ List.replicate 9 '0', c.isDigit = true :=
      List.forall_mem_append.mpr ⟨fun c => List.mem_takeWhile_imp, isDigit_of_mem_replicate⟩
    have hlt := ofDigitChars_lt fun c hc => hdigits c (List.mem_of_mem_take (i := 9) hc)
    rw [List.length_take_of_le (by simp)] at hlt
    simp only at h
    split at h
    next => cases h
    next => rwa [(Prod.mk.inj (Option.some.inj h)).1] at hlt
  next =>
    obtain rfl := (Prod.mk.inj (Option.some.inj h)).1
    decide

/-- Offsets are whole minutes. -/
theorem readOffset?_emod {cs rest : List Char} {offset : ℤ}
    (h : readOffset? cs = some (offset, rest)) : offset % 60 = 0 := by
  unfold readOffset? at h
  extract_lets hoursAndMinutes at h
  have hwhole : ∀ sign cs, hoursAndMinutes sign cs = some (offset, rest) → offset % 60 = 0 := by
    intro sign cs h
    have hsixty (hours minutes : ℤ) : sign * (hours * 3600 + minutes * 60) % 60 = 0 := by
      rw [show sign * (hours * 3600 + minutes * 60) = 60 * (sign * (hours * 60 + minutes)) by ring]
      exact Int.mul_emod_right 60 _
    simp only [hoursAndMinutes] at h
    split at h
    next =>
      split at h
      next =>
        split at h
        next =>
          obtain rfl := (Prod.mk.inj (Option.some.inj h)).1
          exact hsixty _ _
        next => cases h
      next => cases h
    next => cases h
  split at h
  next => exact hwhole _ _ h
  next => exact hwhole _ _ h
  next => exact hwhole _ _ h
  next =>
    split at h
    next =>
      obtain rfl := (Prod.mk.inj (Option.some.inj h)).1
      rfl
    next =>
      split at h
      next =>
        obtain rfl := (Prod.mk.inj (Option.some.inj h)).1
        rfl
      next => cases h
  next => cases h

theorem legible_of_ofParts? {date : Date} {hour minute second nanos : ℕ} {offset : ℤ} {t : Timestamp}
    (hnanos : nanos < 1000000000) (hoffset : offset % 60 = 0)
    (h : ofParts? date hour minute second nanos offset = some t) : t.Legible := by
  unfold ofParts? at h
  extract_lets leap clock total fits at h
  split at h
  next hfits =>
    obtain rfl := Option.some.inj h
    refine ⟨(Bool.and_eq_true_iff.mp hfits).2, ?_, ?_⟩
    · show nanos + (if leap then 1000000000 else 0) < 2000000000
      split <;> omega
    · show 1000000000 ≤ nanos + (if leap then 1000000000 else 0) → total % 60 = 59
      intro hsixty
      have hleap : leap := by
        by_contra hnot
        rw [if_neg hnot] at hsixty
        omega
      have hclock : clock = hour * 3600 + minute * 60 + 59 := by
        simp only [clock, if_pos hleap]
        rfl
      show (date.toDays * secondsPerDay + clock - offset) % 60 = 59
      rw [hclock]
      unfold secondsPerDay
      omega
  next => cases h

theorem legible_of_ofString? {s : String} {t : Timestamp} (h : ofString? s = some t) :
    t.Legible := by
  unfold ofString? ofChars? at h
  -- the date and the time in front of the fraction do not matter
  iterate 11 obtain ⟨_, -, h⟩ := Option.bind_eq_some_iff.mp h
  obtain ⟨⟨nanos, _⟩, hfraction, h⟩ := Option.bind_eq_some_iff.mp h
  obtain ⟨⟨offset, _⟩, hoffset, hparts⟩ := Option.bind_eq_some_iff.mp h
  simp only at hparts
  split at hparts
  next => exact legible_of_ofParts? (readFraction?_lt hfraction) (readOffset?_emod hoffset) hparts
  next => cases hparts

/-- The instants that are read back are those that a text can stand for. -/
theorem ofString?_toString_iff {t : Timestamp} : ofString? t.toString = some t ↔ t.Legible :=
  ⟨legible_of_ofString?, ofString?_toString⟩

end Timestamp

end TextScore.Calendar

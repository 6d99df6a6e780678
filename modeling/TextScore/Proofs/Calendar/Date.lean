import Mathlib
import TextScore.Calendar.Date

/-!
# Date — every day has a date

The date that is found for a day exists, and it is the date of that day only.  The year within a
cycle is found by a formula without a loop; it grows with the day, so it is enough to look at the
first and at the last day of each year.
-/

namespace TextScore.Calendar

/-! ## 1. Years of a cycle -/

/-- Days of a cycle in front of a year, both reckoned from March. -/
def yearStart (y : ℕ) : ℕ :=
  365 * y + y / 4 - y / 100

def yearOfCycle (d : ℕ) : ℕ :=
  (d - d / 1460 + d / 36524 - d / 146096) / 365

theorem yearOfCycle_mono : Monotone yearOfCycle := by
  refine monotone_nat_of_le_succ fun d => Nat.div_le_div_right ?_
  -- a day more adds one to a quotient at most, and to the last only together with the one before it
  have hfour : ∀ n, n / 146096 = n / 36524 / 4 := fun n => (Nat.div_div_eq_div_mul n 36524 4).symm
  rw [hfour, hfour]
  omega

/-- The first and the last day of a year are in that year. -/
theorem yearOfCycle_ends : ∀ y < 400,
    yearOfCycle (yearStart y) = y ∧ yearOfCycle (yearStart (y + 1) - 1) = y := by
  decide +kernel

/-- A year has 365 days, and one more if it ends in a leap year. -/
theorem yearStart_succ (y : ℕ) :
    yearStart (y + 1) = yearStart y + 365 ∨
      yearStart (y + 1) = yearStart y + 366 ∧ (y + 1) % 4 = 0 ∧ (y + 1) % 100 ≠ 0 := by
  obtain ⟨a, b, hb, rfl⟩ : ∃ a b, b < 100 ∧ y = 100 * a + b :=
    ⟨y / 100, y % 100, Nat.mod_lt _ (by decide), (Nat.div_add_mod y 100).symm⟩
  unfold yearStart
  rcases Nat.lt_or_ge (b + 1) 100 with hlt | hge
  · have hnext : (100 * a + b + 1) / 100 = a := by omega
    have hsame : (100 * a + b) / 100 = a := by omega
    omega
  · obtain rfl : b = 99 := by omega
    omega

section

variable {d : ℕ} (h : d < 146097)
include h

theorem yearOfCycle_lt : yearOfCycle d < 400 := by
  have hmono : yearOfCycle d ≤ yearOfCycle 146096 := yearOfCycle_mono (by omega)
  have hlast : yearOfCycle 146096 = 399 := by decide
  omega

theorem yearStart_yearOfCycle_le : yearStart (yearOfCycle d) ≤ d := by
  have hyear := yearOfCycle_lt h
  generalize hy : yearOfCycle d = y at hyear ⊢
  by_contra hlt
  cases y with
  | zero => exact hlt (Nat.zero_le d)
  | succ y =>
    have hmono : yearOfCycle d ≤ yearOfCycle (yearStart (y + 1) - 1) :=
      yearOfCycle_mono (by omega)
    rw [(yearOfCycle_ends y (by omega)).2] at hmono
    omega

/-- Only the last year has a day behind the start of the next one: the leap day of the cycle. -/
theorem lt_yearStart_succ : d < yearStart (yearOfCycle d + 1) ∨ yearOfCycle d = 399 := by
  have hyear := yearOfCycle_lt h
  generalize hy : yearOfCycle d = y at hyear ⊢
  by_contra hnot
  push Not at hnot
  have hmono := yearOfCycle_mono hnot.1
  rw [(yearOfCycle_ends (y + 1) (by omega)).1] at hmono
  omega

theorem dayOfYear_le :
    d - yearStart (yearOfCycle d) ≤ 364 ∨
      d - yearStart (yearOfCycle d) = 365 ∧ (yearOfCycle d + 1) % 4 = 0 ∧
        ((yearOfCycle d + 1) % 100 ≠ 0 ∨ yearOfCycle d = 399) := by
  have hstart := yearStart_yearOfCycle_le h
  rcases lt_yearStart_succ h with hend | hlast
  · rcases yearStart_succ (yearOfCycle d) with hnext | ⟨hnext, hfour, hhundred⟩
    · omega
    · by_cases hleap : d - yearStart (yearOfCycle d) = 365
      · exact .inr ⟨hleap, hfour, .inl hhundred⟩
      · omega
  · have hstart : yearStart 399 = 145731 := by decide
    rw [hlast, hstart]
    omega

end

/-! ## 2. Days and dates -/

/-- A date from its parts, with the months counted from March. -/
def fromMarch (cycle : ℤ) (y month day : ℕ) : Date :=
  if month < 10 then ⟨y + cycle * 400, month + 3, day⟩ else ⟨y + cycle * 400 + 1, month - 9, day⟩

section

variable {cycle : ℤ} {y k : ℕ}

/-- The days in front of a month do not go beyond a day of it. -/
theorem monthStart_le (k : ℕ) : (153 * ((5 * k + 2) / 153) + 2) / 5 ≤ k := by
  omega

theorem toDays_fromMarch (hy : y < 400) (hk : k ≤ 365) :
    (fromMarch cycle y ((5 * k + 2) / 153)
      (k - (153 * ((5 * k + 2) / 153) + 2) / 5 + 1)).toDays =
      cycle * cycleDays + (yearStart y + k : ℕ) - epochShift := by
  have hstart := monthStart_le k
  have hmonth : (5 * k + 2) / 153 < 12 := by omega
  generalize (5 * k + 2) / 153 = month at hstart hmonth
  have hcycle : (y + cycle * 400 : ℤ) / 400 = cycle := by omega
  have hyear : (y + cycle * 400 : ℤ) % 400 = y := by omega
  unfold fromMarch Date.toDays yearStart
  split
  · have hlate : ¬month + 3 ≤ 2 := by omega
    have hback : month + 3 - 3 = month := by omega
    simp only [hlate, if_false, hcycle, hyear, hback]
    omega
  · have hearly : month - 9 ≤ 2 := by omega
    have hback : month - 9 + 9 = month := by omega
    simp only [hearly, if_true, add_sub_cancel_right, hcycle, hyear, hback]
    omega

theorem isValid_fromMarch (hk : k ≤ 364 ∨ k = 365 ∧ (y + 1) % 4 = 0 ∧ ((y + 1) % 100 ≠ 0 ∨ y = 399)) :
    (fromMarch cycle y ((5 * k + 2) / 153)
      (k - (153 * ((5 * k + 2) / 153) + 2) / 5 + 1)).isValid = true := by
  obtain ⟨month, hmonth⟩ : ∃ month, (5 * k + 2) / 153 = month := ⟨_, rfl⟩
  have hlt : month < 12 := by omega
  unfold fromMarch Date.isValid
  rw [hmonth]
  by_cases hfebruary : month = 11
  · -- only February depends on the year
    subst hfebruary
    have hleap : k = 365 → isLeapYear (y + cycle * 400 + 1) = true := by
      intro hlast
      unfold isLeapYear
      simp only [Bool.and_eq_true, Bool.or_eq_true, decide_eq_true_eq, bne_iff_ne]
      omega
    have hday : k - 337 < daysInMonth (y + cycle * 400 + 1) 2 := by
      show k - 337 < if isLeapYear (y + cycle * 400 + 1) = true then 29 else 28
      split
      · omega
      next hcommon =>
        have hk' : k ≠ 365 := fun hlast => hcommon (hleap hlast)
        omega
    simpa using hday
  · have hlt' : month < 11 := by omega
    interval_cases month
    all_goals
      simp [daysInMonth]
      omega

end

/-- The parts of a day: its cycle, the year in it, and the day of that year. -/
theorem ofDays_eq (days : ℤ) :
    ∃ (cycle : ℤ) (d : ℕ), d < 146097 ∧ days = cycle * cycleDays + d - epochShift ∧
      let k := d - yearStart (yearOfCycle d)
      Date.ofDays days = fromMarch cycle (yearOfCycle d) ((5 * k + 2) / 153)
        (k - (153 * ((5 * k + 2) / 153) + 2) / 5 + 1) := by
  refine ⟨(days + epochShift) / cycleDays, ((days + epochShift) % cycleDays).toNat, ?_, ?_, rfl⟩
  · unfold cycleDays
    omega
  · unfold cycleDays
    omega

/-- The date of a day exists. -/
theorem isValid_ofDays (days : ℤ) : (Date.ofDays days).isValid = true := by
  obtain ⟨cycle, d, hd, -, hdate⟩ := ofDays_eq days
  rw [hdate]
  exact isValid_fromMarch (dayOfYear_le hd)

/-- A day is the day of its date. -/
theorem toDays_ofDays (days : ℤ) : (Date.ofDays days).toDays = days := by
  obtain ⟨cycle, d, hd, hdays, hdate⟩ := ofDays_eq days
  have hstart := yearStart_yearOfCycle_le hd
  rw [hdate, toDays_fromMarch (yearOfCycle_lt hd) (by have := dayOfYear_le hd; omega), hdays,
    Nat.add_sub_cancel' hstart]

end TextScore.Calendar

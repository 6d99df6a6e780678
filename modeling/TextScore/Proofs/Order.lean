import Mathlib
import TextScore.Calendar.Timestamp

/-!
# Order — what comes first, and what sorting leaves alone

Instants are ordered by their seconds and then by their fractions; that one is not before another is
a total order read backwards.  Sorting by any such order moves items past one another only where the
order asks for it: items of which none has to stand before another keep the order in which they came,
whatever stands between them.
-/

namespace TextScore

/-! ## 1. Instants -/

namespace Calendar.Timestamp

variable {a b c : Timestamp}

theorem isBefore_iff :
    a.isBefore b = true ↔ a.seconds < b.seconds ∨ a.seconds = b.seconds ∧ a.nanos < b.nanos := by
  unfold isBefore
  rw [Bool.or_eq_true, Bool.and_eq_true, decide_eq_true_eq, decide_eq_true_eq, decide_eq_true_eq]

theorem isBefore_eq_false_iff :
    a.isBefore b = false ↔ b.seconds < a.seconds ∨ b.seconds = a.seconds ∧ b.nanos ≤ a.nanos := by
  rw [← Bool.not_eq_true, isBefore_iff]
  omega

theorem isBefore_self (a : Timestamp) : a.isBefore a = false := by
  rw [isBefore_eq_false_iff]
  omega

theorem isBefore_asymm (h : a.isBefore b = true) : b.isBefore a = false := by
  rw [isBefore_iff] at h
  rw [isBefore_eq_false_iff]
  omega

theorem isBefore_eq_false_trans (hab : a.isBefore b = false) (hbc : b.isBefore c = false) :
    a.isBefore c = false := by
  rw [isBefore_eq_false_iff] at *
  omega

theorem isBefore_of_isBefore_eq_false (hba : b.isBefore a = false) (hbc : b.isBefore c = true) :
    a.isBefore c = true := by
  rw [isBefore_eq_false_iff] at hba
  rw [isBefore_iff] at *
  omega

theorem isBefore_eq_false_total (a b : Timestamp) :
    a.isBefore b = false ∨ b.isBefore a = false := by
  rw [isBefore_eq_false_iff, isBefore_eq_false_iff]
  omega

theorem eq_of_isBefore_eq_false (hab : a.isBefore b = false) (hba : b.isBefore a = false) :
    a = b := by
  rw [isBefore_eq_false_iff] at *
  obtain ⟨seconds, nanos⟩ := a
  obtain ⟨seconds', nanos'⟩ := b
  simp only at hab hba
  have hseconds : seconds = seconds' := by omega
  have hnanos : nanos = nanos' := by omega
  rw [hseconds, hnanos]

end Calendar.Timestamp

/-! ## 2. Sorting -/

variable {α : Type} {le : α → α → Bool}

/-- The items of a list that are tied with one another come out of a sort as they went in. -/
theorem filter_mergeSort_of_tied (htrans : ∀ a b c, le a b = true → le b c = true → le a c = true)
    (htotal : ∀ a b, (le a b || le b a) = true) {tied : α → Bool}
    (htied : ∀ a b, tied a = true → tied b = true → le a b = true) (items : List α) :
    (items.mergeSort le).filter tied = items.filter tied := by
  -- tied items are sorted already, so they stay a sublist of what is sorted
  have hsorted : (items.filter tied).Pairwise fun a b => le a b := by
    apply List.pairwise_of_forall_mem_list
    intro a ha b hb
    exact htied a b (List.mem_filter.mp ha).2 (List.mem_filter.mp hb).2
  have hsub : (items.filter tied).Sublist (items.mergeSort le) :=
    List.sublist_mergeSort htrans htotal hsorted List.filter_sublist
  have hsub' : (items.filter tied).Sublist ((items.mergeSort le).filter tied) := by
    simpa only [List.filter_filter, Bool.and_self] using hsub.filter tied
  have hlength : ((items.mergeSort le).filter tied).length = (items.filter tied).length :=
    ((List.mergeSort_perm items le).filter tied).length_eq
  exact (hsub'.eq_of_length hlength.symm).symm

end TextScore

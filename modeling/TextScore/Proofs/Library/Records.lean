import Mathlib
import TextScore.Library.Store
import TextScore.Proofs.Order

/-!
# Records — lists of records under their identifiers

What is found under an identifier after a record is put or an identifier is dropped, and how the
order of identifiers changes.  Of records under different identifiers nothing is lost in this view:
the order and what is found determine the list.
-/

namespace TextScore.Library

open TextScore.Calendar

/-! ## 1. Finding -/

@[simp] theorem find?_nil (id : String) : find? id [] = none := rfl

theorem find?_cons (id : String) (item : Record) (items : List Record) :
    find? id (item :: items) = if item.id = id then some item else find? id items := by
  unfold find?
  rw [List.find?_cons]
  split <;> simp_all

theorem id_of_find? {id : String} {items : List Record} {record : Record}
    (h : find? id items = some record) : record.id = id := by
  simpa using List.find?_some h

theorem isSome_find?_iff {id : String} {items : List Record} :
    (find? id items).isSome = true ↔ id ∈ items.map (·.id) := by
  unfold find?
  rw [List.find?_isSome, List.mem_map]
  simp only [decide_eq_true_eq]

/-- Under different identifiers every record is found under its own. -/
theorem find?_of_mem {items : List Record} (hnodup : (items.map (·.id)).Nodup) {record : Record}
    (hmem : record ∈ items) : find? record.id items = some record := by
  obtain ⟨found, hfound⟩ : ∃ found, find? record.id items = some found := by
    rw [← Option.isSome_iff_exists, isSome_find?_iff]
    exact List.mem_map_of_mem hmem
  have hsame := List.inj_on_of_nodup_map hnodup (List.mem_of_find?_eq_some hfound) hmem
    (id_of_find? hfound)
  rw [hfound, hsame]

/-- Records under different identifiers are what is found under these, in order. -/
theorem filterMap_find?_map_id {items : List Record} (hnodup : (items.map (·.id)).Nodup) :
    (items.map (·.id)).filterMap (find? · items) = items := by
  rw [List.filterMap_map]
  conv_rhs => rw [← List.filterMap_some (l := items)]
  exact List.filterMap_congr fun record hmem => find?_of_mem hnodup hmem

/-! ## 2. Putting and dropping -/

theorem find?_put (record : Record) (id : String) (items : List Record) :
    find? id (put record items) = if id = record.id then some record else find? id items := by
  induction items with
  | nil =>
    rw [put, find?_cons]
    simp only [eq_comm]
  | cons item rest ih =>
    rw [put]
    split
    next hsame =>
      rw [find?_cons, find?_cons, hsame]
      by_cases hid : id = record.id
      · rw [if_pos hid.symm, if_pos hid]
      · rw [if_neg (Ne.symm hid), if_neg hid, if_neg (Ne.symm hid)]
    next hother =>
      rw [find?_cons, find?_cons, ih]
      by_cases hitem : item.id = id
      · rw [if_pos hitem, if_pos hitem, if_neg (hitem ▸ hother)]
      · rw [if_neg hitem, if_neg hitem]

/-- A record is put in the place of its identifier, or at the end. -/
theorem map_id_put (record : Record) (items : List Record) :
    (put record items).map (·.id) =
      if record.id ∈ items.map (·.id) then items.map (·.id)
      else items.map (·.id) ++ [record.id] := by
  induction items with
  | nil => rfl
  | cons item rest ih =>
    rw [put]
    by_cases hitem : item.id = record.id
    · rw [if_pos hitem, List.map_cons, List.map_cons, hitem, if_pos List.mem_cons_self]
    · rw [if_neg hitem, List.map_cons, ih, List.map_cons]
      by_cases hrest : record.id ∈ rest.map (·.id)
      · rw [if_pos hrest, if_pos (List.mem_cons_of_mem _ hrest)]
      · rw [if_neg hrest, if_neg (List.not_mem_cons_of_ne_of_not_mem (Ne.symm hitem) hrest),
          List.cons_append]

theorem put_of_find?_eq_none {record : Record} {items : List Record}
    (h : find? record.id items = none) : put record items = items ++ [record] := by
  induction items with
  | nil => rfl
  | cons item rest ih =>
    rw [find?_cons] at h
    split at h
    next => cases h
    next hother => rw [put, if_neg hother, ih h, List.cons_append]

theorem find?_filter_ne (dropped id : String) (items : List Record) :
    find? id (items.filter fun item => item.id ≠ dropped) =
      if id = dropped then none else find? id items := by
  induction items with
  | nil => simp
  | cons item rest ih =>
    rw [List.filter_cons, find?_cons]
    by_cases hitem : item.id = dropped
    · rw [if_neg (by simpa using hitem), ih]
      by_cases hid : id = dropped
      · rw [if_pos hid, if_pos hid]
      · rw [if_neg hid, if_neg hid, if_neg (hitem ▸ Ne.symm hid)]
    · rw [if_pos (by simpa using hitem), find?_cons, ih]
      by_cases hid : item.id = id
      · rw [if_pos hid, if_pos hid, if_neg (hid ▸ hitem)]
      · rw [if_neg hid, if_neg hid]

theorem map_id_filter_ne (dropped : String) (items : List Record) :
    (items.filter fun item => item.id ≠ dropped).map (·.id) =
      (items.map (·.id)).filter (· ≠ dropped) := by
  rw [List.filter_map]
  rfl

theorem length_filter_ne_eq_iff {dropped : String} {items : List Record} :
    (items.filter fun item => item.id ≠ dropped).length = items.length ↔
      find? dropped items = none := by
  unfold find?
  rw [List.length_filter_eq_length_iff, List.find?_eq_none]
  simp only [decide_eq_true_eq]

/-! ## 3. Newest first -/

/-- The order that records are sorted by. -/
def isListedBefore (a b : Record) : Bool :=
  !a.updatedAt.isBefore b.updatedAt

theorem isListedBefore_trans (a b c : Record) (hab : isListedBefore a b = true)
    (hbc : isListedBefore b c = true) : isListedBefore a c = true := by
  unfold isListedBefore at *
  rw [Bool.not_eq_true'] at *
  exact Timestamp.isBefore_eq_false_trans hab hbc

theorem isListedBefore_total (a b : Record) : (isListedBefore a b || isListedBefore b a) = true := by
  unfold isListedBefore
  rw [Bool.or_eq_true, Bool.not_eq_true', Bool.not_eq_true']
  exact Timestamp.isBefore_eq_false_total a.updatedAt b.updatedAt

@[simp] theorem newestFirst_nil : newestFirst [] = [] :=
  List.mergeSort_nil

theorem newestFirst_perm (items : List Record) : (newestFirst items).Perm items :=
  List.mergeSort_perm items _

theorem newestFirst_pairwise (items : List Record) :
    (newestFirst items).Pairwise fun a b => a.updatedAt.isBefore b.updatedAt = false := by
  have h : (newestFirst items).Pairwise fun a b => isListedBefore a b :=
    List.pairwise_mergeSort isListedBefore_trans isListedBefore_total items
  exact h.imp fun hab => Bool.not_eq_true' _ ▸ hab

/-- Records of one time stay in order. -/
theorem newestFirst_filter (items : List Record) (time : Timestamp) :
    (newestFirst items).filter (fun item => item.updatedAt = time) =
      items.filter fun item => item.updatedAt = time := by
  apply filter_mergeSort_of_tied isListedBefore_trans isListedBefore_total
  intro a b ha hb
  rw [decide_eq_true_eq] at ha hb
  unfold isListedBefore
  rw [ha, hb, Timestamp.isBefore_self]
  rfl

end TextScore.Library

import Mathlib
import TextScore.Proofs.Library.Records

/-!
# Catalog — a map that remembers the order of insertion

A catalog binds identifiers to records and keeps the identifiers in the order in which they were
first bound.  A list of records under different identifiers is a catalog written out, and putting,
dropping and merging records are the operations of the map.
-/

namespace TextScore.Library

structure Catalog where
  order : List String
  bound? : String → Option Record
  order_nodup : order.Nodup
  mem_order_iff : ∀ id, id ∈ order ↔ (bound? id).isSome = true
  id_of_bound? : ∀ id record, bound? id = some record → record.id = id

namespace Catalog

def empty : Catalog where
  order := []
  bound? _ := none
  order_nodup := List.nodup_nil
  mem_order_iff := by simp
  id_of_bound? := by simp

/-- The record is bound to its identifier, which keeps its place, or comes last when it is new. -/
def bind (c : Catalog) (record : Record) : Catalog where
  order := if record.id ∈ c.order then c.order else c.order ++ [record.id]
  bound? := Function.update c.bound? record.id (some record)
  order_nodup := by
    split
    next => exact c.order_nodup
    next hnew => exact c.order_nodup.append (List.nodup_singleton _) (by simpa using hnew)
  mem_order_iff id := by
    by_cases hid : id = record.id
    · rw [hid, Function.update_self]
      split <;> simp_all
    · rw [Function.update_of_ne hid, ← c.mem_order_iff]
      split <;> simp [hid]
  id_of_bound? id bound h := by
    by_cases hid : id = record.id
    · rw [hid, Function.update_self, Option.some.injEq] at h
      rw [hid, h]
    · rw [Function.update_of_ne hid] at h
      exact c.id_of_bound? id bound h

/-- The identifier is bound no more; all others keep their record and their order. -/
def unbind (c : Catalog) (dropped : String) : Catalog where
  order := c.order.filter (· ≠ dropped)
  bound? := Function.update c.bound? dropped none
  order_nodup := c.order_nodup.filter _
  mem_order_iff id := by
    rw [List.mem_filter, c.mem_order_iff]
    by_cases hid : id = dropped
    · simp [hid]
    · simp [hid]
  id_of_bound? id bound h := by
    by_cases hid : id = dropped
    · rw [hid, Function.update_self] at h
      cases h
    · rw [Function.update_of_ne hid] at h
      exact c.id_of_bound? id bound h

/-- An imported record is bound unless its identifier is bound to one that is at least as new. -/
def takes (c : Catalog) (record : Record) : Bool :=
  (c.bound? record.id).all fun bound => bound.updatedAt.isBefore record.updatedAt

/-- Records imported one after the other, and how many of them were bound. -/
def importAll (c : Catalog) : List Record → Catalog × Nat
  | [] => (c, 0)
  | record :: rest =>
    if c.takes record then
      let (after, count) := (c.bind record).importAll rest
      (after, count + 1)
    else c.importAll rest

/-- What is bound, in order. -/
def records (c : Catalog) : List Record :=
  c.order.filterMap c.bound?

/-! ## Catalogs written out -/

variable (c : Catalog)

theorem map_id_records : c.records.map (·.id) = c.order := by
  unfold records
  rw [List.map_filterMap]
  conv_rhs => rw [← List.filterMap_some (l := c.order)]
  apply List.filterMap_congr
  intro id hid
  obtain ⟨record, hrecord⟩ := Option.isSome_iff_exists.mp ((c.mem_order_iff id).mp hid)
  rw [hrecord, Option.map_some, c.id_of_bound? id record hrecord]

theorem find?_records (id : String) : find? id c.records = c.bound? id := by
  cases hbound : c.bound? id with
  | none =>
    rw [← Option.not_isSome_iff_eq_none, isSome_find?_iff, map_id_records, c.mem_order_iff, hbound]
    exact Bool.false_ne_true
  | some record =>
    have hid : record.id = id := c.id_of_bound? id record hbound
    have horder : id ∈ c.order := (c.mem_order_iff id).mpr (hbound ▸ rfl)
    have hmem : record ∈ c.records := List.mem_filterMap.mpr ⟨id, horder, hbound⟩
    have hnodup : (c.records.map (·.id)).Nodup := c.map_id_records ▸ c.order_nodup
    rw [← hid]
    exact find?_of_mem hnodup hmem

/-- The order and what is found determine a list of records under different identifiers. -/
theorem eq_records {items : List Record} (horder : items.map (·.id) = c.order)
    (hbound : ∀ id, find? id items = c.bound? id) : items = c.records := by
  have hnodup : (items.map (·.id)).Nodup := horder ▸ c.order_nodup
  rw [← filterMap_find?_map_id hnodup, horder]
  exact List.filterMap_congr fun id _ => hbound id

theorem records_bind (record : Record) : (c.bind record).records = put record c.records := by
  symm
  apply eq_records
  · rw [map_id_put, map_id_records]
    rfl
  · intro id
    rw [find?_put, find?_records]
    exact (Function.update_apply c.bound? record.id (some record) id).symm

theorem records_unbind (dropped : String) :
    (c.unbind dropped).records = c.records.filter fun item => item.id ≠ dropped := by
  symm
  apply eq_records
  · rw [map_id_filter_ne, map_id_records]
    rfl
  · intro id
    rw [find?_filter_ne, find?_records]
    exact (Function.update_apply c.bound? dropped none id).symm

theorem merge_records (count : Nat) (record : Record) :
    merge (c.records, count) record =
      if c.takes record then ((c.bind record).records, count + 1) else (c.records, count) := by
  unfold merge takes
  rw [find?_records, records_bind]
  cases hbound : c.bound? record.id with
  | none =>
    have hnew : put record c.records = c.records ++ [record] :=
      put_of_find?_eq_none (by rw [find?_records, hbound])
    rw [hnew]
    rfl
  | some bound => rfl

/-- Merging records into a catalog that is written out imports them. -/
theorem mergeAll_records (incoming : List Record) :
    mergeAll c.records incoming =
      ((c.importAll incoming).1.records, (c.importAll incoming).2) := by
  suffices h : ∀ count, incoming.foldl merge (c.records, count) =
      ((c.importAll incoming).1.records, count + (c.importAll incoming).2) by
    rw [mergeAll, h, Nat.zero_add]
  -- each record leaves another catalog and another count
  induction incoming generalizing c with
  | nil => exact fun count => rfl
  | cons record rest ih =>
    intro count
    rw [List.foldl_cons, merge_records, importAll]
    split
    next =>
      rw [ih (c.bind record), Nat.add_assoc, Nat.add_comm 1]
    next => rw [ih c]

theorem importAll_eq_self {incoming : List Record} (h : (c.importAll incoming).2 = 0) :
    (c.importAll incoming).1 = c := by
  induction incoming with
  | nil => rfl
  | cons record rest ih =>
    rw [importAll] at h ⊢
    split at h
    next => exact absurd h (Nat.succ_ne_zero _)
    next htakes =>
      rw [if_neg htakes]
      exact ih h

end Catalog

end TextScore.Library

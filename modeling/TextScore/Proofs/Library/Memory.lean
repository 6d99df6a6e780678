import Mathlib
import TextScore.Proofs.Library.Catalog
import TextScore.Proofs.Library.Run

/-!
# Memory — a library in memory is a catalog

Starting empty, a library in memory never holds two records under one identifier.  It is a catalog
written out at every moment, and every operation on it is the operation of the catalog: a save and
each import bind a record, a deletion unbinds an identifier, and nothing else changes anything.
-/

namespace TextScore.Library

/-! ## 1. Operations on a catalog -/

namespace Catalog

/-- The catalog that an operation leaves. -/
def step (c : Catalog) : Operation → Catalog
  | .save request fresh now =>
    match request.record fresh now with
    | .ok record => c.bind record
    | .error _ => c
  | .delete id => c.unbind id
  | .importText text =>
    match decode text with
    | .ok incoming => (c.importAll incoming).1
    | .error _ => c
  | .items | .list | .load _ | .exportText => c

/-- Every bound record once, newest first, and those of one time in the order of the catalog. -/
structure Lists (c : Catalog) (items : List Record) : Prop where
  perm : items.Perm c.records
  newest : items.Pairwise fun a b => a.updatedAt.isBefore b.updatedAt = false
  ties : ∀ time, items.filter (fun item => item.updatedAt = time) =
    c.records.filter fun item => item.updatedAt = time

/-- The answers that an operation may give. -/
def Answers (c : Catalog) : Operation → Except ScoreError Value → Prop
  | .save request fresh now, answer => answer = (request.record fresh now).map .record
  | .delete id, answer => answer = .ok (.removed (c.bound? id).isSome)
  | .importText text, answer =>
    match decode text with
    | .ok incoming => answer = .ok (.count (c.importAll incoming).2)
    | .error fault => answer = .error (.storage fault)
  | .items, answer => answer = .ok (.records c.records)
  | .list, answer => ∃ items, c.Lists items ∧ answer = .ok (.records items)
  | .load id, answer =>
    match c.bound? id with
    | some record => answer = .ok (.record record)
    | none => answer = .error (.notFound id)
  | .exportText, answer => ∃ items, c.Lists items ∧ answer = .ok (.text (encode items))

theorem lists_newestFirst (c : Catalog) : c.Lists (newestFirst c.records) where
  perm := newestFirst_perm c.records
  newest := newestFirst_pairwise c.records
  ties := newestFirst_filter c.records

/-! ## 2. One step -/

variable (c : Catalog)

theorem answers_respond (op : Operation) : c.Answers op (respond c.records op).2 := by
  cases op with
  | save request fresh now =>
    simp only [respond, Answers]
    cases request.record fresh now <;> rfl
  | delete id =>
    simp only [respond, Answers, length_filter_ne_eq_iff, find?_records]
    cases c.bound? id <;> rfl
  | importText text =>
    simp only [respond, Answers]
    cases decode text with
    | error fault => rfl
    | ok incoming => simp only [mergeAll_records]
  | items => rfl
  | list => exact ⟨_, c.lists_newestFirst, rfl⟩
  | load id =>
    simp only [respond, Answers, find?_records]
    cases c.bound? id <;> rfl
  | exportText => exact ⟨_, c.lists_newestFirst, rfl⟩

/-- What an operation stores of a catalog that is written out is the catalog that it leaves. -/
theorem records_step (op : Operation) :
    (c.step op).records = (respond c.records op).1.getD c.records := by
  cases op with
  | save request fresh now =>
    simp only [respond, step]
    cases request.record fresh now with
    | error e => rfl
    | ok record => exact c.records_bind record
  | delete id =>
    simp only [respond, step, records_unbind]
    split
    -- nothing is stored when nothing was dropped
    next hlength => exact List.filter_sublist.eq_of_length hlength
    next => rfl
  | importText text =>
    simp only [respond, step]
    cases decode text with
    | error fault => rfl
    | ok incoming =>
      simp only [mergeAll_records]
      split
      next hnone => rw [c.importAll_eq_self hnone, Option.getD_none]
      next => rfl
  | items => rfl
  | list => rfl
  | load id => rfl
  | exportText => rfl

end Catalog

theorem holds_memory (items : List Record) : Holds (⟨items⟩ : MemoryStore) items :=
  ⟨rfl, rfl, fun _ => rfl⟩

/-- What a change says is to be stored is stored, or everything stays as it is. -/
theorem update_memory {α : Type} (store : MemoryStore)
    (change : List Record → Option (List Record) × α) (remark : α → Journal) :
    (update store change remark).answer = .ok (change store.items).2 ∧
      (update store change remark).store = ⟨(change store.items).1.getD store.items⟩ := by
  have hholds : Holds store store.items := holds_memory store.items
  refine ⟨(update_of_ok hholds.readForWrite hholds.write).1, ?_⟩
  rw [(update_of_ok hholds.readForWrite hholds.write).2]
  cases (change store.items).1 <;> rfl

theorem load_memory (store : MemoryStore) (id : String) :
    (load store id).result = (find? id store.items).elim (.error (.notFound id)) .ok := by
  have hread : (Store.read store).result = .ok store.items := rfl
  simp only [load, hread, Except.bind]
  cases find? id store.items <;> rfl

theorem list_memory (store : MemoryStore) :
    (list store).result = .ok (newestFirst store.items) := rfl

/-- A library in memory leaves what an operation stores, or is left as it is. -/
theorem memory_step (items : List Record) (op : Operation) :
    step (⟨items⟩ : MemoryStore) op = (⟨(respond items op).1.getD items⟩, (respond items op).2) := by
  rw [(holds_memory items).step_eq]
  cases (respond items op).1 <;> rfl

theorem memory_run_records (c : Catalog) (ops : List Operation) :
    run (⟨c.records⟩ : MemoryStore) ops = ⟨(ops.foldl Catalog.step c).records⟩ := by
  induction ops generalizing c with
  | nil => rfl
  | cons op ops ih =>
    show run (step (⟨c.records⟩ : MemoryStore) op).1 ops = _
    rw [memory_step, ← c.records_step op, ih]
    rfl

theorem nodup_ids_run (ops : List Operation) :
    ((run MemoryStore.empty ops).items.map (·.id)).Nodup := by
  have hrun : run MemoryStore.empty ops = ⟨(ops.foldl Catalog.step .empty).records⟩ :=
    memory_run_records .empty ops
  rw [hrun, Catalog.map_id_records]
  exact (ops.foldl Catalog.step .empty).order_nodup

/-- After any operations on an empty library in memory, failing ones included, identifiers are
different, the records are the catalog that the same operations leave, and whatever is asked next is
answered as the catalog answers it; what fails leaves the library as it was. -/
theorem run_is_catalog (ops : List Operation) :
    let store := run MemoryStore.empty ops
    let catalog := ops.foldl Catalog.step .empty
    (store.items.map (·.id)).Nodup ∧
      store.items = catalog.records ∧
      ∀ op, catalog.Answers op (step store op).2 ∧
        ∀ e, (step store op).2 = .error e → (step store op).1 = store := by
  intro store catalog
  have hstore : store = ⟨catalog.records⟩ := memory_run_records .empty ops
  rw [hstore]
  refine ⟨?_, rfl, fun op => ?_⟩
  · rw [catalog.map_id_records]
    exact catalog.order_nodup
  · rw [memory_step]
    refine ⟨catalog.answers_respond op, fun e he => ?_⟩
    rw [respond_eq_none_of_error he]
    rfl

end TextScore.Library

import Mathlib
import TextScore.Library.Store

/-!
# Run — a library under any sequence of operations

One step for each thing that can be asked of a library, whatever keeps it, and runs of such steps.
Where a library can be read and written, the records it holds decide what is answered and what is
stored, if anything is; what keeps the records only decides where they are stored.
-/

namespace TextScore.Library

open TextScore.Calendar

/-! ## 1. Steps and runs -/

/-- What can be asked of a library.  A save comes with the identifier that would be made for it. -/
inductive Operation where
  | save (request : SaveRequest) (fresh : String) (now : Timestamp)
  | delete (id : String)
  | importText (text : String)
  | items
  | list
  | load (id : String)
  | exportText

/-- What a library answers when it does not fail. -/
inductive Value where
  | record (record : Record)
  | removed (found : Bool)
  | count (taken : Nat)
  | records (items : List Record)
  | text (content : String)
  deriving DecidableEq

section

variable {σ : Type} [Store σ]

/-- One operation: the store it leaves and what it answers. -/
def step (store : σ) : Operation → σ × Except ScoreError Value
  | .save request fresh now =>
    let reply := save store request fresh now
    (reply.store, reply.answer.map .record)
  | .delete id =>
    let reply := delete store id
    (reply.store, reply.answer.map .removed)
  | .importText text =>
    let reply := importText store text
    (reply.store, reply.answer.map .count)
  | .items => (store, (Store.read store).result.map .records)
  | .list => (store, (list store).result.map .records)
  | .load id => (store, (load store id).result.map .record)
  | .exportText => (store, (exportText store).result.map .text)

def run (store : σ) (ops : List Operation) : σ :=
  ops.foldl (fun store op => (step store op).1) store

/-! ## 2. What an update does -/

variable {store : σ} {α : Type} {change : List Record → Option (List Record) × α}
  {remark : α → Journal}

/-- An update of what cannot be read for writing fails and leaves the store. -/
theorem update_of_error {e : ScoreError} (h : (Store.readForWrite store).result = .error e) :
    (update store change remark).answer = .error e ∧
      (update store change remark).store = store := by
  unfold update
  simp only [h, and_self]

/-- An update answers what the change says of the records that are read, and writes what it says is
to be stored. -/
theorem update_of_ok {items : List Record} (h : (Store.readForWrite store).result = .ok items)
    (hwrite : ∀ new, (Store.write store new).answer = .ok ()) :
    (update store change remark).answer = .ok (change items).2 ∧
      (update store change remark).store =
        (change items).1.elim store fun new => (Store.write store new).store := by
  unfold update
  rcases hchange : change items with ⟨stored, answer⟩
  cases stored with
  | none => simp only [h, hchange, Option.elim_none, and_self]
  | some new => simp only [h, hchange, hwrite, Option.elim_some, and_self]

/-- An update leaves the store, or leaves what writing makes of it, and writes only where it could
read. -/
theorem update_store_cases :
    (update store change remark).store = store ∨
      ∃ items new, (Store.readForWrite store).result = .ok items ∧
        (update store change remark).store = (Store.write store new).store := by
  unfold update
  cases hread : (Store.readForWrite store).result with
  | error e =>
    left
    simp only [hread]
  | ok items =>
    rcases hchange : change items with ⟨stored, answer⟩
    cases stored with
    | none =>
      left
      simp only [hread, hchange]
    | some new =>
      right
      refine ⟨items, new, rfl, ?_⟩
      simp only [hread, hchange]
      split <;> rfl

theorem step_store_cases (store : σ) (op : Operation) :
    (step store op).1 = store ∨
      ∃ items new, (Store.readForWrite store).result = .ok items ∧
        (step store op).1 = (Store.write store new).store := by
  cases op with
  | save request fresh now =>
    simp only [step, save]
    split
    next => exact Or.inl rfl
    next => exact update_store_cases
  | delete id => exact update_store_cases
  | importText text =>
    simp only [step, importText]
    split
    next => exact Or.inl rfl
    next => exact update_store_cases
  | items => exact Or.inl rfl
  | list => exact Or.inl rfl
  | load id => exact Or.inl rfl
  | exportText => exact Or.inl rfl

end

/-! ## 3. Libraries that can be read and written -/

/-- The record that a save asks for. -/
def SaveRequest.record (request : SaveRequest) (fresh : String) (now : Timestamp) :
    Except ScoreError Record :=
  (Tempo.ofBpm request.tempo).map fun tempo =>
    ⟨request.id.getD fresh, storedTitle request.title, now, request.rawInput, tempo.bpm⟩

/-- The records to be stored, if any are, and the answer of an operation on the records of a
library. -/
def respond (items : List Record) : Operation → Option (List Record) × Except ScoreError Value
  | .save request fresh now =>
    match request.record fresh now with
    | .error e => (none, .error e)
    | .ok record => (some (put record items), .ok (.record record))
  | .delete id =>
    let kept := items.filter fun item => item.id ≠ id
    if kept.length = items.length then (none, .ok (.removed false))
    else (some kept, .ok (.removed true))
  | .importText text =>
    match decode text with
    | .error fault => (none, .error (.storage fault))
    | .ok incoming =>
      let (merged, taken) := mergeAll items incoming
      (if taken = 0 then none else some merged, .ok (.count taken))
  | .items => (none, .ok (.records items))
  | .list => (none, .ok (.records (newestFirst items)))
  | .load id =>
    (none, match find? id items with
      | some record => .ok (.record record)
      | none => .error (.notFound id))
  | .exportText => (none, .ok (.text (encode (newestFirst items))))

/-- An operation that fails stores nothing. -/
theorem respond_eq_none_of_error {items : List Record} {op : Operation} {e : ScoreError}
    (h : (respond items op).2 = .error e) : (respond items op).1 = none := by
  cases op with
  | save request fresh now =>
    simp only [respond] at h ⊢
    split at h
    next => rfl
    next => cases h
  | delete id =>
    simp only [respond] at h ⊢
    split at h
    next => cases h
    next => cases h
  | importText text =>
    simp only [respond] at h ⊢
    split at h
    next => rfl
    next => cases h
  | items => rfl
  | list => rfl
  | load id => rfl
  | exportText => rfl

section

variable {σ : Type} [Store σ]

/-- The store holds these records, and whatever is written to it is stored. -/
structure Holds (store : σ) (items : List Record) : Prop where
  read : (Store.read store).result = .ok items
  readForWrite : (Store.readForWrite store).result = .ok items
  write : ∀ new, (Store.write store new).answer = .ok ()

theorem Holds.step_eq {store : σ} {items : List Record} (h : Holds store items) (op : Operation) :
    step store op =
      ((respond items op).1.elim store fun new => (Store.write store new).store,
        (respond items op).2) := by
  cases op with
  | save request fresh now =>
    cases htempo : Tempo.ofBpm request.tempo with
    | error e =>
      simp only [step, save, respond, SaveRequest.record, htempo]
      rfl
    | ok tempo =>
      simp only [step, save, htempo, update_of_ok h.readForWrite h.write, respond,
        SaveRequest.record]
      rfl
  | delete id =>
    simp only [step, delete, update_of_ok h.readForWrite h.write, respond]
    split <;> rfl
  | importText text =>
    cases hdecode : decode text with
    | error fault =>
      simp only [step, importText, respond, hdecode]
      rfl
    | ok incoming =>
      simp only [step, importText, hdecode, update_of_ok h.readForWrite h.write, respond]
      rfl
  | items =>
    simp only [step, h.read]
    rfl
  | list =>
    simp only [step, list, h.read]
    rfl
  | load id =>
    simp only [step, load, h.read, respond, Except.bind, Option.elim_none]
    cases find? id items <;> rfl
  | exportText =>
    simp only [step, exportText, list, h.read]
    rfl

end

end TextScore.Library

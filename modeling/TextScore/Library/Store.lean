import TextScore.Document
import TextScore.Library.Envelope

/-!
# Store — the operations of a library

A store says how its records are read, how they are read before they are written back, and how they
are written.  All operations are built on these three, so they mean the same on every store.
-/

namespace TextScore.Library

open TextScore.Calendar

/-- What an operation answers, what it leaves, and what it remarks. -/
structure Reply (σ α : Type) where
  store : σ
  answer : Except ScoreError α
  journal : Journal

structure Reading (α : Type) where
  result : Except ScoreError α
  journal : Journal

class Store (σ : Type) where
  read : σ → Reading (List Record)
  /-- The records a write starts from; it fails where writing back would lose what is stored. -/
  readForWrite : σ → Reading (List Record)
  write : σ → List Record → Reply σ Unit

/-! ## 1. Records in order -/

def find? (id : String) (items : List Record) : Option Record :=
  items.find? fun item => item.id = id

/-- A record in the place of the first one with its identifier, or at the end. -/
def put (record : Record) : List Record → List Record
  | [] => [record]
  | item :: rest => if item.id = record.id then record :: rest else item :: put record rest

/-- Newest first; records of one time stay in order. -/
def newestFirst (items : List Record) : List Record :=
  items.mergeSort fun a b => !a.updatedAt.isBefore b.updatedAt

/-- One record merged in: it is added when its identifier is new, and replaces the record of its
identifier when it is newer.  The count tells whether it was taken. -/
def merge (state : List Record × Nat) (record : Record) : List Record × Nat :=
  match find? record.id state.1 with
  | none => (state.1 ++ [record], state.2 + 1)
  | some existing =>
    if existing.updatedAt.isBefore record.updatedAt then (put record state.1, state.2 + 1)
    else state

/-- All records merged in, one after the other, and how many were taken. -/
def mergeAll (items incoming : List Record) : List Record × Nat :=
  incoming.foldl merge (items, 0)

/-! ## 2. Operations -/

structure SaveRequest where
  id : Option String
  title : String
  rawInput : String
  tempo : Float
  deriving DecidableEq, Repr

/-- A blank title is stored as `Untitled`. -/
def storedTitle (title : String) : String :=
  let trimmed := Text.trimString title
  if trimmed = "" then untitled else trimmed

section Operations

variable {σ : Type} [Store σ]

def list (store : σ) : Reading (List Record) :=
  let reading := Store.read store
  ⟨reading.result.map newestFirst, reading.journal⟩

def load (store : σ) (id : String) : Reading Record :=
  let reading := Store.read store
  ⟨reading.result.bind fun items =>
    match find? id items with
    | some record => .ok record
    | none => .error (.notFound id), reading.journal⟩

/-- The whole library as a text that can be imported elsewhere. -/
def exportText (store : σ) : Reading String :=
  let reading := list store
  ⟨reading.result.map encode, reading.journal⟩

/-- Reads what is stored, computes what to store and what to answer, and writes if there is
something to store. -/
def update {α : Type} (store : σ) (change : List Record → Option (List Record) × α)
    (remark : α → Journal) : Reply σ α :=
  let reading := Store.readForWrite store
  match reading.result with
  | .error e => ⟨store, .error e, reading.journal⟩
  | .ok items =>
    match change items with
    | (none, answer) => ⟨store, .ok answer, reading.journal ++ remark answer⟩
    | (some items, answer) =>
      let written := Store.write store items
      let journal := reading.journal ++ written.journal
      match written.answer with
      | .error e => ⟨written.store, .error e, journal⟩
      | .ok () => ⟨written.store, .ok answer, journal ++ remark answer⟩

/-- Inserts or replaces by identifier, stamped with the time `now`; without an identifier the record
is stored under `fresh`. -/
def save (store : σ) (request : SaveRequest) (fresh : String) (now : Timestamp) :
    Reply σ Record :=
  match Tempo.ofBpm request.tempo with
  | .error e => ⟨store, .error e, []⟩
  | .ok tempo =>
    let record : Record :=
      ⟨request.id.getD fresh, storedTitle request.title, now, request.rawInput, tempo.bpm⟩
    update store (fun items => (some (put record items), record))
      fun record => [⟨.debug, s!"saved composition {record.id}"⟩]

/-- Removes every record of an identifier; answers whether there was one. -/
def delete (store : σ) (id : String) : Reply σ Bool :=
  update store (fun items =>
    let kept := items.filter fun item => item.id ≠ id
    if kept.length = items.length then (none, false) else (some kept, true)) fun _ => []

/-- Merges an exported library in; answers how many records were added or replaced. -/
def importText (store : σ) (text : String) : Reply σ Nat :=
  match decode text with
  | .error fault => ⟨store, .error (.storage fault), []⟩
  | .ok incoming =>
    let reply := update store (fun items =>
      let (merged, changed) := mergeAll items incoming
      (if changed = 0 then none else some merged, changed)) fun _ => []
    { reply with journal := decodeJournal text ++ reply.journal }

end Operations

/-! ## 3. A store in memory -/

structure MemoryStore where
  items : List Record
  deriving DecidableEq, Repr

def MemoryStore.empty : MemoryStore := ⟨[]⟩

instance : Store MemoryStore where
  read store := ⟨.ok store.items, []⟩
  readForWrite store := ⟨.ok store.items, []⟩
  write _ items := ⟨⟨items⟩, .ok (), []⟩

end TextScore.Library

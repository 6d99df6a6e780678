import Mathlib
import TextScore.Library.FileStore
import TextScore.Proofs.Library.Memory

/-!
# File — a library in a file

A file that is missing or can be decoded is a library in memory that is written down after every
change: it answers the same, and it is only touched by operations that store something.  A file that
cannot be decoded is never touched: it is read as an empty library where nothing is at stake, and
whatever would write to it fails.
-/

namespace TextScore.Library

open TextScore.Calendar

/-! ## 1. Files that can be decoded -/

/-- The file is missing and keeps nothing, or its text can be decoded as these records. -/
def FileContent.Keeps : FileContent → List Record → Prop
  | .missing, items => items = []
  | .text content, items => decode content = .ok items
  | _, _ => False

section

variable {content : FileContent} {items : List Record}

theorem holds_file (path : String) (h : content.Keeps items) :
    Holds (⟨path, content⟩ : FileStore) items ∧
      ∀ new, (Store.write (⟨path, content⟩ : FileStore) new).store = ⟨path, .text (encode new)⟩ := by
  cases content with
  | missing =>
    obtain rfl : items = [] := h
    exact ⟨⟨rfl, rfl, fun _ => rfl⟩, fun _ => rfl⟩
  | text content =>
    have hdecode : decode content = .ok items := h
    refine ⟨⟨?_, ?_, fun _ => rfl⟩, fun _ => rfl⟩
    · show (FileStore.read _).result = _
      simp only [FileStore.read, FileStore.readText, hdecode]
    · show (FileStore.readForWrite _).result = _
      simp only [FileStore.readForWrite, FileStore.readText, hdecode]
  | bytes _ => exact h.elim
  | directory => exact h.elim
  | unreachable _ => exact h.elim
  | barred _ => exact h.elim

/-- The operations that store something, by their answers: a save that did not fail, a deletion that
removed a record, and an import that took one. -/
def Operation.stores : Operation → Except ScoreError Value → Bool
  | .save .., .ok _ => true
  | .delete _, .ok (.removed found) => found
  | .importText _, .ok (.count taken) => taken ≠ 0
  | _, _ => false

theorem isSome_respond (items : List Record) (op : Operation) :
    (respond items op).1.isSome = op.stores (respond items op).2 := by
  cases op with
  | save request fresh now =>
    simp only [respond]
    cases request.record fresh now <;> rfl
  | delete id =>
    simp only [respond]
    split <;> rfl
  | importText text =>
    simp only [respond]
    cases decode text with
    | error fault => rfl
    | ok incoming =>
      simp only [Operation.stores]
      split <;> simp_all
  | items => rfl
  | list => rfl
  | load id =>
    simp only [respond]
    cases find? id items <;> rfl
  | exportText => rfl

/-- A file answers as a library in memory with its records.  It then holds the records of that
library when something was stored, and is left untouched when not. -/
theorem file_simulates_memory (path : String) (h : content.Keeps items) (op : Operation) :
    let file := step (⟨path, content⟩ : FileStore) op
    let memory := step (⟨items⟩ : MemoryStore) op
    file.2 = memory.2 ∧
      file.1 = ⟨path, if op.stores memory.2 then .text (encode memory.1.items) else content⟩ ∧
      (op.stores memory.2 = false → memory.1.items = items) := by
  intro file memory
  obtain ⟨hholds, hwrite⟩ := holds_file path h
  have hfile : file = _ := hholds.step_eq op
  have hmemory : memory = _ := memory_step items op
  rw [hfile, hmemory, ← isSome_respond]
  refine ⟨rfl, ?_⟩
  cases (respond items op).1 with
  | none => exact ⟨rfl, fun _ => rfl⟩
  | some new =>
    rw [Option.elim_some, hwrite]
    exact ⟨rfl, fun hnone => by cases hnone⟩

/-- A library from before the version was written down, with one record. -/
def firstText : String :=
  "\x7b\"items\":[\x7b\"id\":\"etude\",\"title\":\"Etude\",\"updatedAt\":\"2024-01-02T03:04:05Z\","
    ++ "\"rawInput\":\"C4 w\",\"tempo\":90\x7d]\x7d"

def etude : Record :=
  ⟨"etude", "Etude", ⟨1704164645, 0⟩, "C4 w", 90⟩

theorem decode_firstText : decode firstText = .ok [etude] := by
  let fields : List (Option String × Json) := [(some "id", .text "etude"),
    (some "title", .text "Etude"), (some "updatedAt", .text "2024-01-02T03:04:05Z"),
    (some "rawInput", .text "C4 w"), (some "tempo", .number ['9', '0'])]
  have hjson : Json.ofText? firstText =
      some (.object [(some "items", .array [.object fields])]) := by cbv
  have htime : Timestamp.ofString? "2024-01-02T03:04:05Z" = some ⟨1704164645, 0⟩ := by cbv
  have htempo : Json.toFloat? (.number ['9', '0']) = some 90 := by rfl
  have hrecord : Record.ofJson? (.object fields) = some etude := by
    simp [fields, Record.ofJson?, hasTextKeys, single?, Json.fieldsNamed, Record.ofValues?,
      Json.text, Json.toText?, htime, htempo, etude]
  have hversion : Json.toUInt32? (Json.ofNat 1) = some 1 := by cbv
  have henvelope : Envelope.ofJson? (.object [(some "items", .array [.object fields])]) =
      some ⟨1, [etude]⟩ := by
    simp [Envelope.ofJson?, hasTextKeys, single?, Json.fieldsNamed, Envelope.ofValues?, hversion,
      hrecord]
  unfold decode openEnvelope
  rw [hjson, Option.bind_some, henvelope]
  rfl

/-- A composition without a title or an identifier of its own. -/
def sketch : SaveRequest := ⟨none, " ", "D4 w", 120⟩

/-- A save adds to the old library and writes it down as one of the current version. -/
theorem save_in_firstText :
    let file := step (⟨"library.json", .text firstText⟩ : FileStore) (.save sketch "comp-2" ⟨0, 0⟩)
    let saved : Record := ⟨"comp-2", "Untitled", ⟨0, 0⟩, "D4 w", 120⟩
    (FileContent.text firstText).Keeps [etude] ∧
      file.2 = .ok (.record saved) ∧
      file.1 = ⟨"library.json", .text (encode [etude, saved])⟩ := by
  intro file saved
  have hkeeps : (FileContent.text firstText).Keeps [etude] := decode_firstText
  obtain ⟨hanswer, hfile, -⟩ :=
    file_simulates_memory "library.json" hkeeps (.save sketch "comp-2" ⟨0, 0⟩)
  exact ⟨hkeeps, hanswer.trans rfl, hfile.trans rfl⟩

end

/-! ## 2. Files that cannot be decoded -/

/-- There is something at the path, but no library that can be read. -/
def FileContent.Undecodable : FileContent → Prop
  | .text content => ∃ fault, decode content = .error fault
  | .bytes _ | .directory => True
  | _ => False

def FileContent.isText : FileContent → Bool
  | .text _ => true
  | _ => false

/-- What is answered where there is no library to be read: whatever would write fails, and a text
is read as an empty library. -/
def FileContent.Refuses (content : FileContent) : Operation → Except ScoreError Value → Prop
  | .save request _ _, answer =>
    if Scalar.isPositive request.tempo then ∃ fault, answer = .error (.storage fault)
    else answer = .error (.invalidTempo request.tempo)
  | .delete _, answer | .importText _, answer => ∃ fault, answer = .error (.storage fault)
  | .items, answer | .list, answer => content.isText → answer = .ok (.records [])
  | .load id, answer => content.isText → answer = .error (.notFound id)
  | .exportText, answer =>
    content.isText → answer = .ok (.text (encode [])) ∧ decode (encode []) = .ok []

section

variable {path : String} {content : FileContent}

theorem readForWrite_of_undecodable (path : String) (h : content.Undecodable) :
    ∃ fault, (Store.readForWrite (⟨path, content⟩ : FileStore)).result = .error (.storage fault) := by
  show ∃ fault, (FileStore.readForWrite _).result = _
  cases content with
  | text content =>
    obtain ⟨fault, hdecode⟩ := h
    refine ⟨.wouldOverwrite path fault, ?_⟩
    simp only [FileStore.readForWrite, FileStore.readText, hdecode]
  | bytes _ => exact ⟨_, rfl⟩
  | directory => exact ⟨_, rfl⟩
  | missing => exact h.elim
  | unreachable _ => exact h.elim
  | barred _ => exact h.elim

theorem read_of_undecodable (h : content.Undecodable) (htext : content.isText = true) :
    (Store.read (⟨path, content⟩ : FileStore)).result = .ok [] := by
  show (FileStore.read _).result = _
  cases content with
  | text content =>
    obtain ⟨fault, hdecode⟩ := h
    simp only [FileStore.read, FileStore.readText, hdecode]
  | _ => cases htext

theorem decode_encode_nil : decode (encode []) = .ok [] := by
  cbv

theorem step_of_undecodable (h : content.Undecodable) (op : Operation) :
    (step (⟨path, content⟩ : FileStore) op).1 = ⟨path, content⟩ ∧
      content.Refuses op (step (⟨path, content⟩ : FileStore) op).2 := by
  obtain ⟨fault, hfault⟩ := readForWrite_of_undecodable path h
  cases op with
  | save request fresh now =>
    -- the tempo is looked at before the file
    cases hpositive : Scalar.isPositive request.tempo with
    | true =>
      have htempo : Tempo.ofBpm request.tempo = .ok ⟨request.tempo, hpositive⟩ := dif_pos hpositive
      simp only [step, save, htempo, update_of_error hfault, FileContent.Refuses, hpositive,
        if_true, true_and]
      exact ⟨fault, rfl⟩
    | false =>
      have htempo : Tempo.ofBpm request.tempo = .error (.invalidTempo request.tempo) :=
        dif_neg (Bool.eq_false_iff.mp hpositive)
      simp only [step, save, htempo, FileContent.Refuses, hpositive, Bool.false_eq_true, if_false,
        Except.map, and_self]
  | delete id =>
    simp only [step, delete, update_of_error hfault, true_and]
    exact ⟨fault, rfl⟩
  | importText text =>
    simp only [step, importText]
    cases decode text with
    | error other => exact ⟨rfl, other, rfl⟩
    | ok incoming =>
      simp only [update_of_error hfault, true_and]
      exact ⟨fault, rfl⟩
  | items =>
    refine ⟨rfl, fun htext => ?_⟩
    simp only [step, read_of_undecodable h htext]
    rfl
  | list =>
    refine ⟨rfl, fun htext => ?_⟩
    simp only [step, list, read_of_undecodable h htext, Except.map, newestFirst_nil]
  | load id =>
    refine ⟨rfl, fun htext => ?_⟩
    simp only [step, load, read_of_undecodable h htext]
    rfl
  | exportText =>
    refine ⟨rfl, fun htext => ⟨?_, decode_encode_nil⟩⟩
    simp only [step, exportText, list, read_of_undecodable h htext, Except.map, newestFirst_nil]

/-- No run of operations touches a file that cannot be decoded, and after each of them it refuses
as before. -/
theorem undecodable_is_never_touched (path : String) (h : content.Undecodable)
    (ops : List Operation) :
    let file : FileStore := ⟨path, content⟩
    run file ops = file ∧ ∀ op, content.Refuses op (step (run file ops) op).2 := by
  intro file
  have hrun : run file ops = file := by
    induction ops with
    | nil => rfl
    | cons op ops ih =>
      show run (step file op).1 ops = file
      rw [(step_of_undecodable h op).1, ih]
  refine ⟨hrun, fun op => ?_⟩
  rw [hrun]
  exact (step_of_undecodable h op).2

/-- A library of a version to come. -/
def laterText : String := "\x7b\"version\":3,\"items\":[]\x7d"

theorem laterText_is_never_touched :
    let file : FileStore := ⟨"library.json", .text laterText⟩
    let after := run file [.save sketch "comp-2" ⟨0, 0⟩, .importText firstText]
    (FileContent.text laterText).Undecodable ∧
      after = file ∧
      (∃ fault, (step after (.delete "etude")).2 = .error (.storage fault)) ∧
      (step after .list).2 = .ok (.records []) := by
  intro file after
  have hundecodable : (FileContent.text laterText).Undecodable := ⟨.unsupportedVersion 3, by cbv⟩
  obtain ⟨hafter, hrefuses⟩ := undecodable_is_never_touched "library.json" hundecodable
    [.save sketch "comp-2" ⟨0, 0⟩, .importText firstText]
  exact ⟨hundecodable, hafter, hrefuses (.delete "etude"), hrefuses .list rfl⟩

end

end TextScore.Library

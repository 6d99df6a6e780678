import Mathlib
import TextScore.Library.Envelope
import TextScore.Proofs.Calendar.Written
import TextScore.Proofs.Json.Number
import TextScore.Proofs.Json.RoundTrip

/-!
# Envelope — what is read back of an encoded library

The text of a library is always JSON, and its envelope is always read; all that can be lost is in the
records themselves, in how their times and tempos are written.  A record survives when it is read
back from its own JSON value, and a library is read back as it was exactly when its records survive.
-/

namespace TextScore.Library

open TextScore.Calendar

/-! ## 1. Libraries -/

/-- The record is read back from how it is written. -/
def Record.Survives (r : Record) : Prop :=
  Record.ofJson? r.toJson = some r

instance (r : Record) : Decidable r.Survives :=
  inferInstanceAs (Decidable (_ = _))

theorem writable_toJson (r : Record) : r.toJson.Writable := by
  apply Json.writable_record
  simp only [List.forall_mem_cons]
  exact ⟨.text r.id, .text r.title, .text r.updatedAt.toString, .text r.rawInput,
    Json.writable_ofFloat r.tempo, List.forall_mem_nil _⟩

/-- Encoded records are read back one by one, whatever they hold. -/
theorem decode_encode_eq (items : List Record) :
    decode (encode items) =
      ((items.map Record.toJson).mapM Record.ofJson?).elim (.error .malformed) .ok := by
  let fields : List (String × Json) := [("version", Json.ofNat currentVersion.toNat),
    ("items", Json.ofList Record.toJson items)]
  have hwritable : (Json.record fields).Writable := by
    apply Json.writable_record
    simp only [fields, List.forall_mem_cons]
    exact ⟨Json.writable_ofNat _, Json.writable_ofList fun r _ => writable_toJson r,
      List.forall_mem_nil _⟩
  have hjson : Json.ofText? (encode items) = some (Json.record fields) :=
    Json.ofText?_pretty hwritable
  have hversion : (Json.ofNat currentVersion.toNat).toUInt32? = some currentVersion := by cbv
  have henvelope : Envelope.ofJson? (Json.record fields) =
      ((items.map Record.toJson).mapM Record.ofJson?).map fun read => ⟨currentVersion, read⟩ := by
    simp [fields, Json.record, Envelope.ofJson?, hasTextKeys, single?, Json.fieldsNamed,
      Envelope.ofValues?, hversion, Json.ofList]
  unfold decode openEnvelope
  rw [hjson, Option.bind_some, henvelope]
  cases (items.map Record.toJson).mapM Record.ofJson? <;> rfl

theorem mapM_ofJson?_toJson_iff {items : List Record} :
    (items.map Record.toJson).mapM Record.ofJson? = some items ↔ ∀ r ∈ items, r.Survives := by
  induction items with
  | nil => simp
  | cons r items ih =>
    rw [List.map_cons, List.mapM_cons, List.forall_mem_cons, ← ih, Record.Survives]
    cases Record.ofJson? r.toJson with
    | none => simp
    | some read =>
      cases (items.map Record.toJson).mapM Record.ofJson? with
      | none => simp
      | some others => simp

/-- A library is read back as it was exactly when each of its records is. -/
theorem decode_encode_iff {items : List Record} :
    decode (encode items) = .ok items ↔ ∀ r ∈ items, r.Survives := by
  rw [decode_encode_eq, ← mapM_ofJson?_toJson_iff]
  cases (items.map Record.toJson).mapM Record.ofJson? with
  | none => simp
  | some read => simp

/-! ## 2. Records that come from texts -/

/-- The record may come from a text: its time is one that can be written, and its tempo a number. -/
structure Record.Legible (r : Record) : Prop where
  time : r.updatedAt.Legible
  tempo : r.tempo.isFinite = true

/-- What is kept for certain: the tempo may come back with another last digit. -/
def Record.withoutTempo (r : Record) : Record :=
  { r with tempo := 0 }

theorem legible_of_ofValues? {id title updatedAt rawInput tempo : Json} {r : Record}
    (h : Record.ofValues? id title updatedAt rawInput tempo = some r) : r.Legible := by
  unfold Record.ofValues? at h
  simp only [Option.bind_eq_some_iff, Option.map_eq_some_iff] at h
  obtain ⟨_, -, _, -, _, -, _, htime, _, -, _, htempo, rfl⟩ := h
  exact ⟨Timestamp.legible_of_ofString? htime, Json.isFinite_of_toFloat? htempo⟩

theorem legible_of_ofJson? {v : Json} {r : Record} (h : Record.ofJson? v = some r) :
    r.Legible := by
  unfold Record.ofJson? at h
  split at h
  next =>
    split at h
    next =>
      simp only [Option.bind_eq_some_iff] at h
      obtain ⟨_, -, _, -, _, -, _, -, _, -, hvalues⟩ := h
      exact legible_of_ofValues? hvalues
    next => cases h
  next => exact legible_of_ofValues? h
  next => cases h

theorem legible_of_mapM_ofJson? {values : List Json} {items : List Record}
    (h : values.mapM Record.ofJson? = some items) : ∀ r ∈ items, r.Legible := by
  induction values generalizing items with
  | nil =>
    obtain rfl : [] = items := Option.some.inj h
    exact nofun
  | cons v values ih =>
    rw [List.mapM_cons] at h
    simp only [Option.bind_eq_bind, Option.bind_eq_some_iff] at h
    obtain ⟨r, hr, others, hothers, hitems⟩ := h
    obtain rfl : r :: others = items := Option.some.inj hitems
    exact List.forall_mem_cons.mpr ⟨legible_of_ofJson? hr, ih hothers⟩

theorem legible_of_ofJson?_envelope {v : Json} {envelope : Envelope}
    (h : Envelope.ofJson? v = some envelope) : ∀ r ∈ envelope.items, r.Legible := by
  have hvalues : ∀ version items, Envelope.ofValues? version items = some envelope →
      ∀ r ∈ envelope.items, r.Legible := by
    intro version items hvalues
    unfold Envelope.ofValues? at hvalues
    obtain ⟨_, -, hitems⟩ := Option.bind_eq_some_iff.mp hvalues
    split at hitems
    next =>
      obtain ⟨read, hread, rfl⟩ := Option.map_eq_some_iff.mp hitems
      exact legible_of_mapM_ofJson? hread
    next => cases hitems
  unfold Envelope.ofJson? at h
  split at h
  next =>
    split at h
    next =>
      obtain ⟨_, -, hsingle⟩ := Option.bind_eq_some_iff.mp h
      obtain ⟨_, -, hboth⟩ := Option.bind_eq_some_iff.mp hsingle
      exact hvalues _ _ hboth
    next => cases h
  next => exact hvalues _ _ h
  next => cases h

/-- Every record of a library that was read may be written and read again. -/
theorem legible_of_decode {text : String} {items : List Record} (h : decode text = .ok items) :
    ∀ r ∈ items, r.Legible := by
  unfold decode openEnvelope at h
  split at h
  next => cases h
  next envelope henvelope =>
    split at h
    next => cases h
    next =>
      obtain rfl : envelope.items = items := Except.ok.inj h
      obtain ⟨_, -, hjson⟩ := Option.bind_eq_some_iff.mp henvelope
      exact legible_of_ofJson?_envelope hjson

/-- A record that came from a text is read back but for its tempo, and with a tempo. -/
theorem exists_ofJson?_toJson {r : Record} (h : r.Legible) :
    ∃ back, Record.ofJson? r.toJson = some back ∧ back.withoutTempo = r.withoutTempo := by
  obtain ⟨tempo, htempo⟩ := Option.isSome_iff_exists.mp (Json.isSome_toFloat?_ofFloat h.tempo)
  have htime := Timestamp.ofString?_toString h.time
  refine ⟨{ r with tempo }, ?_, rfl⟩
  simp [Record.toJson, Json.record, Record.ofJson?, hasTextKeys, single?, Json.fieldsNamed,
    Record.ofValues?, Json.text, Json.toText?, htime, htempo]

/-- A library that came from texts is read back, with all that merging looks at. -/
theorem exists_decode_encode {items : List Record} (h : ∀ r ∈ items, r.Legible) :
    ∃ stored, decode (encode items) = .ok stored ∧
      stored.map Record.withoutTempo = items.map Record.withoutTempo := by
  have hread : ∃ stored, (items.map Record.toJson).mapM Record.ofJson? = some stored ∧
      stored.map Record.withoutTempo = items.map Record.withoutTempo := by
    induction items with
    | nil => exact ⟨[], rfl, rfl⟩
    | cons r items ih =>
      obtain ⟨hr, hitems⟩ := List.forall_mem_cons.mp h
      obtain ⟨back, hback, hsame⟩ := exists_ofJson?_toJson hr
      obtain ⟨stored, hstored, hothers⟩ := ih hitems
      refine ⟨back :: stored, ?_, by rw [List.map_cons, List.map_cons, hsame, hothers]⟩
      rw [List.map_cons, List.mapM_cons, hback, hstored]
      rfl
  obtain ⟨stored, hstored, hsame⟩ := hread
  refine ⟨stored, ?_, hsame⟩
  rw [decode_encode_eq, hstored]
  rfl

end TextScore.Library

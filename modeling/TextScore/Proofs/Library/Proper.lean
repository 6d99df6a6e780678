import Mathlib
import TextScore.Proofs.Library.Import
import TextScore.Proofs.Text.Lines
import TextScore.Schedule

/-!
# Proper — records as saving makes them

Saving checks the tempo and gives a title to what has none; importing takes every record as it is in
the text.  So a library shows proper records only, as long as no import lets another one prevail: a
record that is newer than what is met before it under its identifier, and not superseded behind it.
-/

namespace TextScore.Library

open TextScore.Calendar

/-! ## 1. What saving enforces -/

/-- The tempo is one that can be played at, and the title is not blank. -/
structure Record.Proper (r : Record) : Prop where
  tempo : ∃ tempo, Tempo.ofBpm r.tempo = .ok tempo
  title : Text.allBlank r.title.toList = false

theorem ofBpm_bpm (tempo : Tempo) : Tempo.ofBpm tempo.bpm = .ok tempo :=
  dif_pos tempo.positive

theorem allBlank_storedTitle (title : String) :
    Text.allBlank (storedTitle title).toList = false := by
  by_cases htrimmed : Text.trimString title = ""
  · have hstored : storedTitle title = untitled := if_pos htrimmed
    rw [hstored]
    decide
  · have hstored : storedTitle title = Text.trimString title := if_neg htrimmed
    rw [hstored, Text.trimString, String.toList_ofList, Bool.eq_false_iff]
    intro hblank
    -- what is left between the blanks at the ends is blank only if all of the title is
    obtain ⟨a, b, hsplit, ha, hb⟩ := Text.exists_trim title.toList
    have hall : Text.allBlank title.toList = true := by
      rw [hsplit, Text.allBlank_append, Text.allBlank_append, ha, hblank, hb]
      rfl
    have hnil : Text.trim title.toList = [] := Text.trim_append_blank hall []
    apply htrimmed
    rw [Text.trimString, hnil]

theorem SaveRequest.proper_record {request : SaveRequest} {fresh : String} {now : Timestamp}
    {record : Record} (h : request.record fresh now = .ok record) : record.Proper := by
  unfold SaveRequest.record at h
  cases htempo : Tempo.ofBpm request.tempo with
  | error e =>
    rw [htempo] at h
    cases h
  | ok tempo =>
    rw [htempo] at h
    obtain rfl := Except.ok.inj h
    exact ⟨⟨tempo, ofBpm_bpm tempo⟩, allBlank_storedTitle request.title⟩

/-! ## 2. What prevails of a batch -/

/-- The record comes in newer than what is met before it under its identifier, and none behind it is
newer still. -/
def Prevails (items incoming : List Record) (r : Record) : Prop :=
  ∃ before after, incoming = before ++ r :: after ∧
    (∀ s ∈ candidates items before r.id, s.updatedAt.isBefore r.updatedAt = true) ∧
    ∀ s ∈ after, s.id = r.id → r.updatedAt.isBefore s.updatedAt = false

section

variable {items incoming : List Record} {r : Record} {id : String}

/-- A record that is not superseded behind it is the only one there that is newer than all before. -/
theorem eq_of_not_superseded {a b : Record} {before between after after' : List Record}
    (h : a :: after = between ++ b :: after')
    (hbefore : ∀ s ∈ before ++ between, s.updatedAt.isBefore b.updatedAt = true)
    (hafter : ∀ s ∈ after, a.updatedAt.isBefore s.updatedAt = false) : a = b := by
  cases between with
  | nil => exact (List.cons.inj h).1
  | cons first between =>
    obtain ⟨rfl, hrest⟩ := List.cons.inj h
    have hold : a.updatedAt.isBefore b.updatedAt = true := hbefore a (by simp)
    have hnot : a.updatedAt.isBefore b.updatedAt = false := hafter b (by simp [hrest])
    rw [hold] at hnot
    cases hnot

/-- Only one of the records that were met leads. -/
theorem Leading.unique {met : List Record} {a b : Record} (ha : Leading met (some a))
    (hb : Leading met (some b)) : a = b := by
  obtain ⟨before, after, rfl, hbefore, hafter⟩ := ha
  obtain ⟨before', after', hsplit, hbefore', hafter'⟩ := hb
  obtain ⟨between, rfl, hright⟩ | ⟨between, rfl, hright⟩ := List.append_eq_append_iff.mp hsplit
  · exact eq_of_not_superseded hright hbefore' hafter
  · exact (eq_of_not_superseded hright hbefore hafter').symm

theorem Prevails.leading (h : Prevails items incoming r) :
    Leading (candidates items incoming r.id) (some r) := by
  obtain ⟨before, after, rfl, hbefore, hafter⟩ := h
  refine ⟨candidates items before r.id, after.filter fun s => s.id = r.id, ?_, hbefore, ?_⟩
  · unfold candidates
    rw [List.filter_append, List.filter_cons_of_pos (by simp), List.append_assoc]
  · intro s hs
    obtain ⟨hmem, hid⟩ := List.mem_filter.mp hs
    exact hafter s hmem (of_decide_eq_true hid)

/-- The records of one identifier are met in the order in which they come in. -/
theorem prevails_of_filter {before after : List Record}
    (h : (incoming.filter fun s => s.id = id) = before ++ r :: after)
    (hbefore : ∀ s ∈ (find? id items).toList ++ before, s.updatedAt.isBefore r.updatedAt = true)
    (hafter : ∀ s ∈ after, r.updatedAt.isBefore s.updatedAt = false) :
    Prevails items incoming r := by
  obtain ⟨first, rest, rfl, rfl, hrest⟩ := List.filter_eq_append_iff.mp h
  obtain ⟨others, last, rfl, hothers, hid, rfl⟩ := List.filter_eq_cons_iff.mp hrest
  obtain rfl : r.id = id := of_decide_eq_true hid
  refine ⟨first ++ others, last, by rw [List.append_assoc], ?_, fun s hs hsid => ?_⟩
  · have hnone : (others.filter fun s => s.id = r.id) = [] := List.filter_eq_nil_iff.mpr hothers
    unfold candidates
    rwa [List.filter_append, hnone, List.append_nil]
  · exact hafter s (List.mem_filter.mpr ⟨hs, decide_eq_true hsid⟩)

/-- What leads is stored already, or prevails. -/
theorem Leading.stored_or_prevails (h : Leading (candidates items incoming id) (some r)) :
    find? id items = some r ∨ Prevails items incoming r := by
  obtain ⟨before, after, hmet, hbefore, hafter⟩ := h
  obtain ⟨between, rfl, hright⟩ | ⟨between, hleft, hright⟩ := List.append_eq_append_iff.mp hmet
  · exact .inr (prevails_of_filter hright hbefore hafter)
  · cases between with
    | nil =>
      rw [List.append_nil] at hleft
      have hfirst : (incoming.filter fun s => s.id = id) = [] ++ r :: after := hright.symm
      refine .inr (prevails_of_filter hfirst ?_ hafter)
      rwa [List.append_nil, hleft]
    | cons first between =>
      obtain ⟨rfl, -⟩ := List.cons.inj hright
      have hmem : r ∈ (find? id items).toList := by simp [hleft]
      exact .inl (Option.mem_toList.mp hmem)

/-- What prevails is stored in the end. -/
theorem Prevails.mem (h : Prevails items incoming r) : r ∈ (mergeAll items incoming).1 := by
  have hled := leading_mergeAll items incoming r.id
  cases hfind : find? r.id (mergeAll items incoming).1 with
  | none =>
    rw [hfind] at hled
    exact absurd h.leading.mem (hled.eq_nil_iff.mpr rfl ▸ List.not_mem_nil)
  | some leader =>
    rw [hfind] at hled
    obtain rfl := hled.unique h.leading
    exact List.mem_of_find?_eq_some hfind

/-- What is stored in the end was stored before, or prevails. -/
theorem stored_or_prevails_of_mem (hnodup : ((mergeAll items incoming).1.map (·.id)).Nodup)
    (h : r ∈ (mergeAll items incoming).1) : r ∈ items ∨ Prevails items incoming r := by
  have hled := leading_mergeAll items incoming r.id
  rw [find?_of_mem hnodup h] at hled
  exact hled.stored_or_prevails.imp_left List.mem_of_find?_eq_some

end

/-! ## 3. One operation -/

/-- The operation is an import, and the record prevails of what comes in. -/
def Operation.Brings (items : List Record) : Operation → Record → Prop
  | .importText text, r => ∃ incoming, decode text = .ok incoming ∧ Prevails items incoming r
  | _, _ => False

section

variable {items : List Record} {op : Operation} {r : Record}

theorem items_step_importText {text : String} {incoming : List Record}
    (h : decode text = .ok incoming) :
    (step (⟨items⟩ : MemoryStore) (.importText text)).1.items = (mergeAll items incoming).1 :=
  congrArg MemoryStore.items (importText_memory items h).2

theorem Operation.Brings.mem (h : op.Brings items r) :
    r ∈ (step (⟨items⟩ : MemoryStore) op).1.items := by
  cases op with
  | importText text =>
    obtain ⟨incoming, hdecode, hprevails⟩ := h
    rw [items_step_importText hdecode]
    exact hprevails.mem
  | _ => exact h.elim

/-- Every record that is stored after an operation was stored before it, is as saving makes it, or
was brought by the operation. -/
theorem mem_of_mem_step
    (hnodup : ((step (⟨items⟩ : MemoryStore) op).1.items.map (·.id)).Nodup)
    (h : r ∈ (step (⟨items⟩ : MemoryStore) op).1.items) :
    r ∈ items ∨ r.Proper ∨ op.Brings items r := by
  cases op with
  | save request fresh now =>
    rw [memory_step] at h
    simp only [respond] at h
    cases hrecord : request.record fresh now with
    | error e =>
      rw [hrecord] at h
      exact .inl h
    | ok record =>
      rw [hrecord] at h
      obtain rfl | hmem := mem_of_mem_put h
      · exact .inr (.inl (SaveRequest.proper_record hrecord))
      · exact .inl hmem
  | delete id =>
    rw [memory_step] at h
    simp only [respond] at h
    split at h
    next => exact .inl h
    next => exact .inl (List.mem_of_mem_filter h)
  | importText text =>
    cases hdecode : decode text with
    | error fault =>
      have hmem : r ∈ (importText (⟨items⟩ : MemoryStore) text).store.items := h
      rw [(importText_of_error hdecode).2] at hmem
      exact .inl hmem
    | ok incoming =>
      rw [items_step_importText hdecode] at h hnodup
      obtain hmem | hprevails := stored_or_prevails_of_mem hnodup h
      · exact .inl hmem
      · exact .inr (.inr ⟨incoming, hdecode, hprevails⟩)
  | items => exact .inl h
  | list => exact .inl h
  | load id => exact .inl h
  | exportText => exact .inl h

end

/-! ## 4. Runs -/

/-- The record is among those that are listed, or is loaded under some identifier. -/
def Shows {σ : Type} [Store σ] (store : σ) (r : Record) : Prop :=
  (∃ listed, (list store).result = .ok listed ∧ r ∈ listed) ∨
    ∃ id, (load store id).result = .ok r

theorem shows_memory_iff {store : MemoryStore} {r : Record} :
    Shows store r ↔ r ∈ store.items := by
  constructor
  · rintro (⟨listed, hlist, hmem⟩ | ⟨id, hload⟩)
    · rw [list_memory] at hlist
      obtain rfl := Except.ok.inj hlist
      exact (newestFirst_perm store.items).mem_iff.mp hmem
    · rw [load_memory] at hload
      cases hfind : find? id store.items with
      | none =>
        rw [hfind] at hload
        cases hload
      | some found =>
        rw [hfind] at hload
        obtain rfl : found = r := Except.ok.inj hload
        exact List.mem_of_find?_eq_some hfind
  · exact fun hmem =>
      .inl ⟨_, list_memory store, (newestFirst_perm store.items).mem_iff.mpr hmem⟩

/-- The library in memory after the first operations of a run. -/
def moment (ops : List Operation) (count : ℕ) : MemoryStore :=
  run MemoryStore.empty (ops.take count)

section

variable {ops : List Operation} {count : ℕ} {op : Operation} {r : Record}

theorem moment_succ (h : ops[count]? = some op) :
    moment ops (count + 1) = (step (moment ops count) op).1 := by
  unfold moment run
  rw [List.take_add_one, h, Option.toList_some, List.foldl_append]
  rfl

theorem moment_succ_of_none (h : ops[count]? = none) :
    moment ops (count + 1) = moment ops count := by
  unfold moment
  rw [List.take_add_one, h, Option.toList_none, List.append_nil]

/-- What an import brings is shown at the next moment. -/
theorem shows_of_brings (hop : ops[count]? = some op)
    (h : op.Brings (moment ops count).items r) : Shows (moment ops (count + 1)) r := by
  rw [shows_memory_iff, moment_succ hop]
  exact h.mem

/-- Every record that is stored is as saving makes it, or was brought by an import before. -/
theorem proper_or_brought (h : r ∈ (moment ops count).items) :
    r.Proper ∨ ∃ k < count, ∃ op, ops[k]? = some op ∧
      Operation.Brings (moment ops k).items op r := by
  induction count with
  | zero => cases h
  | succ count ih =>
    have hearlier (hmem : r ∈ (moment ops count).items) :
        r.Proper ∨ ∃ k < count + 1, ∃ op, ops[k]? = some op ∧
          Operation.Brings (moment ops k).items op r := by
      refine (ih hmem).imp_right ?_
      rintro ⟨k, hk, hbrought⟩
      exact ⟨k, Nat.lt_succ_of_lt hk, hbrought⟩
    cases hop : ops[count]? with
    | none =>
      rw [moment_succ_of_none hop] at h
      exact hearlier h
    | some op =>
      have hnodup : ((step (moment ops count) op).1.items.map (·.id)).Nodup := by
        rw [← moment_succ hop]
        exact nodup_ids_run _
      rw [moment_succ hop] at h
      obtain hmem | hproper | hbrings := mem_of_mem_step hnodup h
      · exact hearlier hmem
      · exact .inl hproper
      · exact .inr ⟨count, Nat.lt_succ_self count, op, hop, hbrings⟩

end

/-! ## 5. What is wrong with a record that is not proper -/

theorem ofBpm_eq_ok {bpm : Float} {tempo : Tempo} (h : Tempo.ofBpm bpm = .ok tempo) :
    tempo.bpm = bpm := by
  unfold Tempo.ofBpm at h
  split at h
  next => exact congrArg Tempo.bpm (Except.ok.inj h).symm
  next => cases h

theorem Record.Proper.schedule {r : Record} (h : r.Proper) (doc : Document) :
    schedule doc r.tempo = .ok (Schedule.events r.tempo doc) := by
  obtain ⟨tempo, htempo⟩ := h.tempo
  unfold TextScore.schedule
  rw [htempo, ← ofBpm_eq_ok htempo]
  rfl

/-- A tempo that comes from a text is a number, so one that is refused is not above zero. -/
theorem le_zero_of_ofBpm_error {bpm : Float} (hfinite : bpm.isFinite = true)
    (h : ¬∃ tempo, Tempo.ofBpm bpm = .ok tempo) :
    bpm ≤ 0 ∧ Tempo.ofBpm bpm = .error (.invalidTempo bpm) := by
  have hnot : ¬Scalar.isPositive bpm = true := fun hpos => h ⟨⟨bpm, hpos⟩, dif_pos hpos⟩
  refine ⟨?_, dif_neg hnot⟩
  obtain ⟨q, hq, -⟩ := Decimal.exists_standsAt_of_isFinite hfinite
  apply Decimal.float_le_of_not_lt hq.isNaN rfl
  intro hpos
  apply hnot
  show (bpm.isFinite && decide (0 < bpm)) = true
  rw [hfinite, decide_eq_true hpos]
  rfl

/-- What an import brings is finite, so its tempo is refused only if it is not above zero. -/
theorem Operation.Brings.refused {items : List Record} {op : Operation} {r : Record}
    (h : op.Brings items r) (hproper : ¬r.Proper) :
    Text.allBlank r.title.toList = true ∨
      r.tempo ≤ 0 ∧ ∀ doc, schedule doc r.tempo = .error (.invalidTempo r.tempo) := by
  by_cases htitle : Text.allBlank r.title.toList = true
  · exact .inl htitle
  · right
    have hfinite : r.tempo.isFinite = true := by
      cases op with
      | importText text =>
        obtain ⟨incoming, hdecode, before, behind, hsplit, -⟩ := h
        exact (legible_of_decode hdecode r (by simp [hsplit])).tempo
      | _ => exact h.elim
    obtain ⟨hle, hrefused⟩ := le_zero_of_ofBpm_error hfinite
      fun htempo => hproper ⟨htempo, Bool.eq_false_iff.mpr htitle⟩
    refine ⟨hle, fun doc => ?_⟩
    unfold schedule
    rw [hrefused]
    rfl

/-- A library in memory shows records as saving makes them at every moment of a run exactly when
every record that prevails in an import is one.  Whatever it shows is as saving makes it, and can be
scheduled at its tempo, or was brought by an import; and of these one that is not as saving makes it
has a blank title, or a tempo that is not above zero and at which nothing can be scheduled. -/
theorem run_shows_proper_iff (ops : List Operation) :
    ((∀ count r, Shows (moment ops count) r → r.Proper) ↔
        ∀ (count : ℕ) (op : Operation), ops[count]? = some op →
          ∀ r, op.Brings (moment ops count).items r → r.Proper) ∧
      ∀ count r, Shows (moment ops count) r →
        (r.Proper ∧ ∀ doc, schedule doc r.tempo = .ok (Schedule.events r.tempo doc)) ∨
          (∃ k < count, ∃ op, ops[k]? = some op ∧ Operation.Brings (moment ops k).items op r) ∧
            (Text.allBlank r.title.toList = true ∨
              r.tempo ≤ 0 ∧ ∀ doc, schedule doc r.tempo = .error (.invalidTempo r.tempo)) := by
  refine ⟨⟨fun hall count op hop r hbrings => ?_, fun hall count r hshows => ?_⟩,
    fun count r hshows => ?_⟩
  · exact hall (count + 1) r (shows_of_brings hop hbrings)
  · obtain hproper | ⟨k, -, op, hop, hbrings⟩ := proper_or_brought (shows_memory_iff.mp hshows)
    · exact hproper
    · exact hall k op hop r hbrings
  · by_cases hproper : r.Proper
    · exact .inl ⟨hproper, hproper.schedule⟩
    · have hbrought := (proper_or_brought (shows_memory_iff.mp hshows)).resolve_left hproper
      obtain ⟨k, hk, op, hop, hbrings⟩ := hbrought
      exact .inr ⟨⟨k, hk, op, hop, hbrings⟩, hbrings.refused hproper⟩

/-- A composition without a title that stands still. -/
def dirge : Record := ⟨"dirge", " ", ⟨1704164645, 0⟩, "C4 w", 0⟩

/-- It is imported and shown, although nothing can be scheduled at its tempo. -/
theorem dirge_is_shown :
    let ops := [Operation.importText (encode [dirge])]
    Shows (moment ops 1) dirge ∧
      Text.allBlank dirge.title.toList = true ∧
      (∀ doc, schedule doc dirge.tempo = .error (.invalidTempo 0)) ∧
      ¬∀ count r, Shows (moment ops count) r → r.Proper := by
  intro ops
  have hdecode : decode (encode [dirge]) = .ok [dirge] := by
    rw [decode_encode_iff]
    decide +kernel
  have hblank : Text.allBlank dirge.title.toList = true := by decide
  have hbrings : (Operation.importText (encode [dirge])).Brings (moment ops 0).items dirge :=
    ⟨[dirge], hdecode, [], [], rfl, nofun, nofun⟩
  refine ⟨shows_of_brings rfl hbrings, hblank, fun doc => rfl, fun hall => ?_⟩
  have hproper := (run_shows_proper_iff ops).1.mp hall 0 _ rfl dirge hbrings
  rw [hproper.title] at hblank
  cases hblank

end TextScore.Library

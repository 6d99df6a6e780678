import Mathlib
import TextScore.Proofs.Library.Envelope
import TextScore.Proofs.Library.File
import TextScore.Proofs.Library.Merge

/-!
# Import — what a batch of records does to a library

A batch comes in record by record, and each one meets what those before it have left.  All the same
the outcome can be told from the library and the batch alone: no record that is stored moves, every
new identifier is added once, and the first entry of an identifier ends as the earliest of its newest
records.  So a batch that comes in once more finds nothing to do.
-/

namespace TextScore.Library

open TextScore.Calendar

/-! ## 1. What a batch amounts to -/

/-- The records met under an identifier: its first entry, and what comes in, in order. -/
def candidates (items incoming : List Record) (id : String) : List Record :=
  (find? id items).toList ++ incoming.filter fun r => r.id = id

/-- The record is newer than those met before it, and none met after it is newer still. -/
def Leading (met : List Record) : Option Record → Prop
  | some r => ∃ before after, met = before ++ r :: after ∧
      (∀ s ∈ before, s.updatedAt.isBefore r.updatedAt = true) ∧
      ∀ s ∈ after, r.updatedAt.isBefore s.updatedAt = false
  | none => met = []

/-- Identifiers that are not stored, each once, in the order in which they first come in. -/
def newIds (items incoming : List Record) : List String :=
  ((incoming.map (·.id)).filter fun id => id ∉ items.map (·.id)).eraseDups

/-- Records were met under the identifier of this one before it, and it is newer than all of them. -/
def supersedes (items incoming : List Record) (k : ℕ) : Bool :=
  incoming[k]?.any fun r =>
    let met := candidates items (incoming.take k) r.id
    !met.isEmpty && met.all fun s => s.updatedAt.isBefore r.updatedAt

/-- What a library and a batch become, and how many records of the batch were taken. -/
structure Merges (items incoming merged : List Record) (taken : ℕ) : Prop where
  ids : merged.map (·.id) = items.map (·.id) ++ newIds items incoming
  /-- Only the first entry of an identifier that comes in may change. -/
  kept : ∀ k item, items[k]? = some item →
    item.id ∉ incoming.map (·.id) ∨ item.id ∈ (items.take k).map (·.id) → merged[k]? = some item
  leading : ∀ id, Leading (candidates items incoming id) (find? id merged)
  count : taken = (newIds items incoming).length +
    (List.range incoming.length).countP (supersedes items incoming)

variable {items incoming : List Record} {record : Record} {id : String}

/-! ## 2. One record more -/

theorem candidates_concat (items incoming : List Record) (record : Record) (id : String) :
    candidates items (incoming ++ [record]) id =
      candidates items incoming id ++ if record.id = id then [record] else [] := by
  unfold candidates
  rw [List.filter_append, ← List.append_assoc]
  by_cases hid : record.id = id
  · rw [if_pos hid, List.filter_cons_of_pos (by simpa using hid), List.filter_nil]
  · rw [if_neg hid, List.filter_cons_of_neg (by simpa using hid), List.filter_nil]

theorem eraseDups_concat (ids : List String) (id : String) :
    (ids ++ [id]).eraseDups = if id ∈ ids then ids.eraseDups else ids.eraseDups ++ [id] := by
  rw [List.eraseDups_append, List.cons_removeAll, List.nil_removeAll]
  by_cases hid : id ∈ ids
  · rw [if_pos hid, if_neg (by simpa using hid), List.eraseDups_nil, List.append_nil]
  · rw [if_neg hid, if_pos (by simpa using hid), List.eraseDups_cons, List.filter_nil,
      List.eraseDups_nil]

/-- An identifier is added when it is neither stored nor added before. -/
theorem newIds_concat (items incoming : List Record) (record : Record) :
    newIds items (incoming ++ [record]) =
      if record.id ∈ items.map (·.id) ++ newIds items incoming then newIds items incoming
      else newIds items incoming ++ [record.id] := by
  unfold newIds
  rw [List.map_append, List.filter_append, List.map_singleton]
  by_cases hstored : record.id ∈ items.map (·.id)
  · rw [List.filter_cons_of_neg (by simpa using hstored), List.filter_nil, List.append_nil,
      if_pos (List.mem_append_left _ hstored)]
  · rw [List.filter_cons_of_pos (by simpa using hstored), List.filter_nil, eraseDups_concat]
    simp only [List.mem_append, hstored, false_or, List.mem_eraseDups]

theorem mergeAll_concat (items incoming : List Record) (record : Record) :
    mergeAll items (incoming ++ [record]) = merge (mergeAll items incoming) record :=
  List.foldl_concat merge (items, 0) record incoming

theorem supersedes_append_of_lt {k : ℕ} (hk : k < incoming.length) (later : List Record) :
    supersedes items (incoming ++ later) k = supersedes items incoming k := by
  unfold supersedes
  rw [List.getElem?_append_left hk, List.take_append_of_le_length hk.le]

theorem supersedes_concat (items incoming : List Record) (record : Record) :
    supersedes items (incoming ++ [record]) incoming.length =
      (!(candidates items incoming record.id).isEmpty &&
        (candidates items incoming record.id).all fun s =>
          s.updatedAt.isBefore record.updatedAt) := by
  unfold supersedes
  rw [List.getElem?_concat_length, Option.any_some, List.take_left]

/-! ## 3. The earliest of the newest -/

theorem Leading.eq_nil_iff {met : List Record} {found : Option Record} (h : Leading met found) :
    met = [] ↔ found = none := by
  cases found with
  | none => exact ⟨fun _ => rfl, fun _ => h⟩
  | some r =>
    obtain ⟨before, after, rfl, -⟩ := h
    exact ⟨fun hnil => by simp at hnil, nofun⟩

theorem Leading.mem {met : List Record} {r : Record} (h : Leading met (some r)) : r ∈ met := by
  obtain ⟨before, after, rfl, -⟩ := h
  simp

/-- None that was met is newer than the leading one. -/
theorem Leading.isBefore {met : List Record} {r s : Record} (h : Leading met (some r))
    (hs : s ∈ met) : r.updatedAt.isBefore s.updatedAt = false := by
  obtain ⟨before, after, rfl, hbefore, hafter⟩ := h
  rcases List.mem_append.mp hs with hs | hs
  · exact Timestamp.isBefore_asymm (hbefore s hs)
  · rcases List.mem_cons.mp hs with rfl | hs
    · exact Timestamp.isBefore_self _
    · exact hafter s hs

/-- One that is newer than the leading one is newer than all that were met. -/
theorem Leading.all_isBefore {met : List Record} {r s : Record} (h : Leading met (some r)) :
    (met.all fun other => other.updatedAt.isBefore s.updatedAt) =
      r.updatedAt.isBefore s.updatedAt := by
  cases hnewer : r.updatedAt.isBefore s.updatedAt with
  | true =>
    rw [List.all_eq_true]
    exact fun other hother => Timestamp.isBefore_of_isBefore_eq_false (h.isBefore hother) hnewer
  | false =>
    rw [List.all_eq_false]
    exact ⟨r, h.mem, by rw [hnewer]; exact Bool.false_ne_true⟩

theorem Leading.append_newer {met : List Record} {found : Option Record} (h : Leading met found)
    (hnewer : ∀ r ∈ found, r.updatedAt.isBefore record.updatedAt = true) :
    Leading (met ++ [record]) (some record) := by
  refine ⟨met, [], rfl, fun s hs => ?_, nofun⟩
  cases found with
  | none =>
    obtain rfl : met = [] := h
    cases hs
  | some r => exact Timestamp.isBefore_of_isBefore_eq_false (h.isBefore hs) (hnewer r rfl)

theorem Leading.append_older {met : List Record} {r : Record} (h : Leading met (some r))
    (holder : r.updatedAt.isBefore record.updatedAt = false) :
    Leading (met ++ [record]) (some r) := by
  obtain ⟨before, after, rfl, hbefore, hafter⟩ := h
  refine ⟨before, after ++ [record], by simp, hbefore, fun s hs => ?_⟩
  rcases List.mem_append.mp hs with hs | hs
  · exact hafter s hs
  · rwa [List.mem_singleton.mp hs]

theorem leading_find? (items : List Record) (id : String) :
    Leading (candidates items [] id) (find? id items) := by
  unfold candidates
  rw [List.filter_nil, List.append_nil]
  cases find? id items with
  | none => rfl
  | some r => exact ⟨[], [], rfl, nofun, nofun⟩

/-! ## 4. A batch -/

theorem leading_mergeAll (items incoming : List Record) (id : String) :
    Leading (candidates items incoming id) (find? id (mergeAll items incoming).1) := by
  -- one record more is met at the end
  induction incoming using List.reverseRecOn generalizing id with
  | nil => exact leading_find? items id
  | append_singleton incoming record ih =>
    rw [mergeAll_concat, candidates_concat]
    obtain ⟨hmerge, hnewer⟩ | ⟨hmerge, stored, hstored, holder⟩ :=
      merge_cases (mergeAll items incoming) record
    · rw [hmerge, find?_put]
      by_cases hid : record.id = id
      · subst hid
        rw [if_pos rfl, if_pos rfl]
        exact (ih record.id).append_newer hnewer
      · rw [if_neg hid, if_neg (Ne.symm hid), List.append_nil]
        exact ih id
    · rw [hmerge]
      by_cases hid : record.id = id
      · subst hid
        have hled := ih record.id
        rw [hstored] at hled ⊢
        rw [if_pos rfl]
        exact hled.append_older holder
      · rw [if_neg hid, List.append_nil]
        exact ih id

theorem map_id_mergeAll (items incoming : List Record) :
    (mergeAll items incoming).1.map (·.id) = items.map (·.id) ++ newIds items incoming := by
  induction incoming using List.reverseRecOn with
  | nil => simp [mergeAll, newIds]
  | append_singleton incoming record ih =>
    rw [mergeAll_concat, newIds_concat]
    obtain ⟨hmerge, -⟩ | ⟨hmerge, stored, hstored, -⟩ :=
      merge_cases (mergeAll items incoming) record
    · rw [hmerge, map_id_put, ih]
      split
      next => rfl
      next => rw [List.append_assoc]
    · have hmem : record.id ∈ (mergeAll items incoming).1.map (·.id) := by
        rw [← isSome_find?_iff, hstored]
        rfl
      rw [ih] at hmem
      rw [hmerge, ih, if_pos hmem]

/-- A record that is put leaves every entry that is not the first of its identifier. -/
theorem getElem?_put {k : ℕ} {item : Record} (h : items[k]? = some item)
    (hother : item.id ≠ record.id ∨ item.id ∈ (items.take k).map (·.id)) :
    (put record items)[k]? = some item := by
  induction items generalizing k with
  | nil => cases h
  | cons first rest ih =>
    rw [put]
    cases k with
    | zero =>
      obtain rfl : first = item := Option.some.inj h
      have hne : first.id ≠ record.id := hother.resolve_right (by simp)
      rw [if_neg hne]
      rfl
    | succ k =>
      by_cases hfirst : first.id = record.id
      · rw [if_pos hfirst]
        exact h
      · rw [if_neg hfirst]
        refine ih h ?_
        rcases hother with hne | hmem
        · exact .inl hne
        · rw [List.take_succ_cons, List.map_cons, List.mem_cons] at hmem
          rcases hmem with hsame | hmem
          · exact .inl (hsame ▸ hfirst)
          · exact .inr hmem

theorem getElem?_mergeAll {k : ℕ} {item : Record} (h : items[k]? = some item)
    (hother : item.id ∉ incoming.map (·.id) ∨ item.id ∈ (items.take k).map (·.id)) :
    (mergeAll items incoming).1[k]? = some item := by
  induction incoming using List.reverseRecOn with
  | nil => exact h
  | append_singleton incoming record ih =>
    rw [List.map_append, List.mem_append, not_or, List.map_singleton, List.mem_singleton] at hother
    have hstays := ih (hother.imp_left And.left)
    rw [mergeAll_concat]
    obtain ⟨hmerge, -⟩ | ⟨hmerge, -⟩ := merge_cases (mergeAll items incoming) record
    · rw [hmerge]
      refine getElem?_put hstays (hother.imp And.right fun hmem => ?_)
      -- the identifiers in front of the entry are those of the library
      have hk := (List.getElem?_eq_some_iff.mp h).1
      rwa [List.map_take, map_id_mergeAll,
        List.take_append_of_le_length (by rw [List.length_map]; exact hk.le), ← List.map_take]
    · rwa [hmerge]

theorem isSome_find?_mergeAll_iff (items incoming : List Record) (id : String) :
    (find? id (mergeAll items incoming).1).isSome = true ↔
      id ∈ items.map (·.id) ++ newIds items incoming := by
  rw [isSome_find?_iff, map_id_mergeAll]

/-- The records taken are those under new identifiers and those that supersede others. -/
theorem snd_mergeAll (items incoming : List Record) :
    (mergeAll items incoming).2 = (newIds items incoming).length +
      (List.range incoming.length).countP (supersedes items incoming) := by
  induction incoming using List.reverseRecOn with
  | nil => rfl
  | append_singleton incoming record ih =>
    have hearlier : (List.range incoming.length).countP (supersedes items (incoming ++ [record])) =
        (List.range incoming.length).countP (supersedes items incoming) := by
      refine List.countP_congr fun k hk => ?_
      rw [supersedes_append_of_lt (List.mem_range.mp hk)]
    have hled := leading_mergeAll items incoming record.id
    have hmet := isSome_find?_mergeAll_iff items incoming record.id
    rw [mergeAll_concat, newIds_concat, List.length_append, List.length_singleton, List.range_succ,
      List.countP_append, hearlier, List.countP_singleton, supersedes_concat]
    unfold merge
    cases hfind : find? record.id (mergeAll items incoming).1 with
    | none =>
      -- an identifier that was not met before
      rw [hfind] at hled hmet
      have hnil : candidates items incoming record.id = [] := hled
      have hnew : record.id ∉ items.map (·.id) ++ newIds items incoming := by
        rw [← hmet]
        exact Bool.false_ne_true
      rw [hnil, if_neg hnew, List.length_append, List.length_singleton]
      show (mergeAll items incoming).2 + 1 = _ + 1 + (_ + 0)
      omega
    | some stored =>
      rw [hfind] at hled hmet
      have hsome : (candidates items incoming record.id).isEmpty = false := by
        rw [List.isEmpty_eq_false_iff]
        exact List.ne_nil_of_mem hled.mem
      rw [if_pos (hmet.mp rfl), hsome, hled.all_isBefore]
      cases hnewer : stored.updatedAt.isBefore record.updatedAt with
      | true =>
        simp only [hnewer, if_true, Bool.not_false, Bool.and_true]
        omega
      | false =>
        simp only [hnewer, Bool.false_eq_true, if_false, Bool.and_false]
        omega

theorem merges_mergeAll (items incoming : List Record) :
    Merges items incoming (mergeAll items incoming).1 (mergeAll items incoming).2 where
  ids := map_id_mergeAll items incoming
  kept _ _ := getElem?_mergeAll
  leading := leading_mergeAll items incoming
  count := snd_mergeAll items incoming

/-! ## 5. The same batch once more -/

/-- Merging looks at identifiers and times only. -/
theorem find?_of_withoutTempo {stored merged : List Record}
    (h : stored.map Record.withoutTempo = merged.map Record.withoutTempo) (id : String) :
    (find? id stored).map (·.updatedAt) = (find? id merged).map (·.updatedAt) := by
  induction stored generalizing merged with
  | nil =>
    obtain rfl := List.map_eq_nil_iff.mp h.symm
    rfl
  | cons r stored ih =>
    cases merged with
    | nil => cases h
    | cons s merged =>
      rw [List.map_cons, List.map_cons, List.cons.injEq, Record.withoutTempo, Record.withoutTempo,
        Record.mk.injEq] at h
      obtain ⟨⟨hid, -, htime, -, -⟩, hrest⟩ := h
      rw [find?_cons, find?_cons, hid]
      split
      next => rw [Option.map_some, Option.map_some, htime]
      next => exact ih hrest

/-- Nothing of a batch that has come in is taken once more, even of records that were written down
and read back. -/
theorem mergeAll_again {stored : List Record}
    (h : stored.map Record.withoutTempo = (mergeAll items incoming).1.map Record.withoutTempo) :
    mergeAll stored incoming = (stored, 0) := by
  refine mergeAll_eq_self fun r hr => ?_
  have hmet : r ∈ candidates items incoming r.id := by
    refine List.mem_append_right _ (List.mem_filter.mpr ⟨hr, ?_⟩)
    exact decide_eq_true rfl
  have hled := leading_mergeAll items incoming r.id
  have hsame := find?_of_withoutTempo h r.id
  cases hfind : find? r.id (mergeAll items incoming).1 with
  | none =>
    rw [hfind] at hled
    exact absurd hmet (hled.eq_nil_iff.mpr rfl ▸ List.not_mem_nil)
  | some leader =>
    rw [hfind] at hled hsame
    obtain ⟨s, hs, htime⟩ := Option.map_eq_some_iff.mp hsame
    refine ⟨s, hs, ?_⟩
    rw [htime]
    exact hled.isBefore hmet

/-! ## 6. Imports -/

/-- What importing a text with these records does to a store, and that it does nothing more when it
is done again. -/
structure Imports {σ : Type} [Store σ] (store : σ) (text : String) (items incoming merged : List Record)
    (taken : ℕ) : Prop where
  merges : Merges items incoming merged taken
  answer : (importText store text).answer = .ok taken
  untouched : taken = 0 → (importText store text).store = store ∧ merged = items
  written : taken ≠ 0 → (importText store text).store = (Store.write store merged).store
  answer_again : (importText (importText store text).store text).answer = .ok 0
  untouched_again :
    (importText (importText store text).store text).store = (importText store text).store

section

variable {σ : Type} [Store σ] {store : σ} {text : String}

theorem importText_of_error {fault : StorageFault} (h : decode text = .error fault) :
    (importText store text).answer = .error (.storage fault) ∧
      (importText store text).store = store := by
  unfold importText
  rw [h]
  exact ⟨rfl, rfl⟩

theorem importText_of_ok (hstore : Holds store items) (h : decode text = .ok incoming) :
    (importText store text).answer = .ok (mergeAll items incoming).2 ∧
      (importText store text).store = if (mergeAll items incoming).2 = 0 then store
        else (Store.write store (mergeAll items incoming).1).store := by
  unfold importText
  rw [h]
  refine ⟨(update_of_ok hstore.readForWrite hstore.write).1,
    (update_of_ok hstore.readForWrite hstore.write).2.trans ?_⟩
  show Option.elim (if (mergeAll items incoming).2 = 0 then none else _) _ _ = _
  split <;> rfl

/-- A library in memory holds what was merged, also where nothing was taken. -/
theorem importText_memory (items : List Record) (h : decode text = .ok incoming) :
    (importText (⟨items⟩ : MemoryStore) text).answer = .ok (mergeAll items incoming).2 ∧
      (importText (⟨items⟩ : MemoryStore) text).store = ⟨(mergeAll items incoming).1⟩ := by
  obtain ⟨hanswer, hleft⟩ := importText_of_ok (holds_memory items) h
  refine ⟨hanswer, hleft.trans ?_⟩
  split
  next hnone => rw [fst_mergeAll_of_snd_eq_zero hnone]
  next => rfl

/-- Whatever keeps the library: it is enough that what is written can be read back. -/
theorem imports_of_holds (hstore : Holds store items) (hdecode : decode text = .ok incoming)
    (hback : ∃ stored, Holds (Store.write store (mergeAll items incoming).1).store stored ∧
      stored.map Record.withoutTempo = (mergeAll items incoming).1.map Record.withoutTempo) :
    Imports store text items incoming (mergeAll items incoming).1 (mergeAll items incoming).2 := by
  obtain ⟨hanswer, hleft⟩ := importText_of_ok hstore hdecode
  obtain ⟨stored, hstored, hsame⟩ : ∃ stored, Holds (importText store text).store stored ∧
      stored.map Record.withoutTempo = (mergeAll items incoming).1.map Record.withoutTempo := by
    rw [hleft]
    split
    next hnone => exact ⟨items, hstore, by rw [fst_mergeAll_of_snd_eq_zero hnone]⟩
    next => exact hback
  have hagain := importText_of_ok hstored hdecode
  rw [mergeAll_again hsame, if_pos rfl] at hagain
  exact
    { merges := merges_mergeAll items incoming
      answer := hanswer
      untouched := fun hnone => ⟨by rw [hleft, if_pos hnone], fst_mergeAll_of_snd_eq_zero hnone⟩
      written := fun hsome => by rw [hleft, if_neg hsome]
      answer_again := hagain.1
      untouched_again := hagain.2 }

end

theorem FileContent.Keeps.legible {content : FileContent} (h : content.Keeps items) :
    ∀ r ∈ items, r.Legible := by
  cases content with
  | missing =>
    obtain rfl : items = [] := h
    exact nofun
  | text content => exact legible_of_decode h
  | bytes _ => exact h.elim
  | directory => exact h.elim
  | unreachable _ => exact h.elim
  | barred _ => exact h.elim

theorem legible_mergeAll (hitems : ∀ r ∈ items, r.Legible) (hincoming : ∀ r ∈ incoming, r.Legible) :
    ∀ r ∈ (mergeAll items incoming).1, r.Legible := by
  intro r hr
  have hall : (mergeAll items incoming).1 ⊆ items ++ incoming :=
    mergeAll_subset (List.subset_append_left _ _) (List.subset_append_right _ _)
  rcases List.mem_append.mp (hall hr) with hmem | hmem
  · exact hitems r hmem
  · exact hincoming r hmem

/-- An import leaves every store as it is when the text cannot be decoded.  Otherwise its records are
merged into what is kept, in memory or in a file, and importing it once more takes nothing and
changes nothing. -/
theorem import_merges (text : String) :
    (∀ (σ : Type) [Store σ] (store : σ) fault, decode text = .error fault →
      (importText store text).answer = .error (.storage fault) ∧
        (importText store text).store = store) ∧
    ∀ incoming, decode text = .ok incoming →
      (∀ items, ∃ merged taken,
        Imports (⟨items⟩ : MemoryStore) text items incoming merged taken) ∧
      ∀ path content items, FileContent.Keeps content items → ∃ merged taken,
        Imports (⟨path, content⟩ : FileStore) text items incoming merged taken := by
  refine ⟨fun σ _ store fault => importText_of_error, fun incoming hdecode => ⟨fun items => ?_,
    fun path content items hkeeps => ?_⟩⟩
  · exact ⟨_, _, imports_of_holds (holds_memory items) hdecode ⟨_, holds_memory _, rfl⟩⟩
  · obtain ⟨hstore, hwrite⟩ := holds_file path hkeeps
    refine ⟨_, _, imports_of_holds hstore hdecode ?_⟩
    -- what is written can be read back, since all of it was read before
    obtain ⟨stored, hstored, hsame⟩ := exists_decode_encode
      (legible_mergeAll hkeeps.legible (legible_of_decode hdecode))
    have hkept : FileContent.Keeps (.text (encode (mergeAll items incoming).1)) stored := hstored
    refine ⟨stored, ?_, hsame⟩
    rw [hwrite]
    exact (holds_file path hkept).1

/-- A library with two entries of one identifier. -/
def shelf : List Record :=
  [⟨"waltz", "Waltz", ⟨30, 0⟩, "E4 h", 60⟩, ⟨"etude", "Etude", ⟨10, 0⟩, "C4 w", 90⟩,
    ⟨"etude", "Old Etude", ⟨0, 0⟩, "C4 q", 90⟩]

/-- A new identifier twice, a stored one that becomes newer twice, and one that comes too late. -/
def batch : List Record :=
  [⟨"scale", "Scale", ⟨5, 0⟩, "C4 q D4 q", 60⟩, ⟨"etude", "Etude II", ⟨20, 0⟩, "D4 w", 90⟩,
    ⟨"scale", "Old Scale", ⟨4, 0⟩, "C4 q", 60⟩, ⟨"etude", "Etude III", ⟨20, 5⟩, "E4 w", 90⟩,
    ⟨"etude", "Etude IV", ⟨20, 5⟩, "F4 w", 90⟩]

/-- The two of them merged: of two records of one time the earlier one is kept. -/
def shelfWithBatch : List Record :=
  [⟨"waltz", "Waltz", ⟨30, 0⟩, "E4 h", 60⟩, ⟨"etude", "Etude III", ⟨20, 5⟩, "E4 w", 90⟩,
    ⟨"etude", "Old Etude", ⟨0, 0⟩, "C4 q", 90⟩, ⟨"scale", "Scale", ⟨5, 0⟩, "C4 q D4 q", 60⟩]

theorem mergeAll_shelf : mergeAll shelf batch = (shelfWithBatch, 3) := by
  decide +kernel

/-- In memory and in a file three records are taken, and none when the batch comes in again. -/
theorem batch_on_shelf :
    let memory : MemoryStore := ⟨shelf⟩
    let file : FileStore := ⟨"library.json", .text (encode shelf)⟩
    ∃ text, decode text = .ok batch ∧ decode (encode shelf) = .ok shelf ∧
      ((importText memory text).answer = .ok 3 ∧
        (importText memory text).store = ⟨shelfWithBatch⟩ ∧
        (importText (importText memory text).store text).answer = .ok 0) ∧
      (importText file text).answer = .ok 3 ∧
        (importText file text).store = ⟨"library.json", .text (encode shelfWithBatch)⟩ ∧
        (importText (importText file text).store text).answer = .ok 0 := by
  intro memory file
  have hbatch : decode (encode batch) = .ok batch := by
    rw [decode_encode_iff]
    decide +kernel
  have hshelf : decode (encode shelf) = .ok shelf := by
    rw [decode_encode_iff]
    decide +kernel
  have hkeeps : FileContent.Keeps (.text (encode shelf)) shelf := hshelf
  obtain ⟨hmemory, hfile⟩ := (import_merges (encode batch)).2 batch hbatch
  obtain ⟨merged, taken, himport⟩ := hmemory shelf
  obtain ⟨merged', taken', himport'⟩ := hfile "library.json" _ shelf hkeeps
  have hleft := (importText_of_ok (holds_memory shelf) hbatch).2
  have hleft' := (importText_of_ok (holds_file "library.json" hkeeps).1 hbatch).2
  rw [mergeAll_shelf] at hleft hleft'
  have hthree : (newIds shelf batch).length +
      (List.range batch.length).countP (supersedes shelf batch) = 3 := by
    decide +kernel
  have htaken : taken = 3 := himport.merges.count.trans hthree
  have htaken' : taken' = 3 := himport'.merges.count.trans hthree
  exact ⟨encode batch, hbatch, hshelf, ⟨htaken ▸ himport.answer, hleft, himport.answer_again⟩,
    htaken' ▸ himport'.answer, hleft', himport'.answer_again⟩

end TextScore.Library

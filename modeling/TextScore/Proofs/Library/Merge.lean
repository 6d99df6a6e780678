import Mathlib
import TextScore.Proofs.Library.Records

/-!
# Merge — the newest record of every identifier

Merging keeps under each identifier the newest of all records that were stored or came in, whatever
the order in which they came.  Nothing but these records is ever stored, and a library that holds
nothing older than what comes in is left as it is.
-/

namespace TextScore.Library

open TextScore.Calendar

/-! ## 1. The newest record -/

/-- No record of the identifier is newer than this one, or there is none at all. -/
def Newest (items : List Record) (id : String) : Option Record → Prop
  | some r => r ∈ items ∧ r.id = id ∧
      ∀ other ∈ items, other.id = id → r.updatedAt.isBefore other.updatedAt = false
  | none => ∀ other ∈ items, other.id ≠ id

variable {items incoming : List Record} {id : String}

/-- Under different identifiers each record is the newest of its own. -/
theorem newest_find? (hnodup : (items.map (·.id)).Nodup) (id : String) :
    Newest items id (find? id items) := by
  cases hfind : find? id items with
  | none =>
    intro other hmem hid
    rw [← hid, find?_of_mem hnodup hmem] at hfind
    cases hfind
  | some r =>
    refine ⟨List.mem_of_find?_eq_some hfind, id_of_find? hfind, fun other hmem hid => ?_⟩
    have hsame : some other = some r := by rw [← find?_of_mem hnodup hmem, hid, hfind]
    rw [Option.some.inj hsame]
    exact Timestamp.isBefore_self _

/-- Where there is a record, the newest one is at least as new. -/
theorem Newest.exists_of_mem {found : Option Record} {r : Record} (h : Newest items r.id found)
    (hr : r ∈ items) :
    ∃ s ∈ found, s.id = r.id ∧ s.updatedAt.isBefore r.updatedAt = false := by
  cases found with
  | none => exact absurd rfl (h r hr)
  | some s => exact ⟨s, rfl, h.2.1, h.2.2 r hr rfl⟩

/-- Older records may be added without another becoming the newest. -/
theorem Newest.of_dominated {all : List Record} {found : Option Record}
    (h : Newest items id found) (hsub : items ⊆ all)
    (hdominated : ∀ r ∈ all, ∃ s ∈ items, s.id = r.id ∧ s.updatedAt.isBefore r.updatedAt = false) :
    Newest all id found := by
  cases found with
  | none =>
    intro other hmem hid
    obtain ⟨s, hs, hsid, -⟩ := hdominated other hmem
    exact h s hs (hsid.trans hid)
  | some r =>
    obtain ⟨hmem, hr, hnewest⟩ := h
    refine ⟨hsub hmem, hr, fun other hother hid => ?_⟩
    obtain ⟨s, hs, hsid, hnotBefore⟩ := hdominated other hother
    exact Timestamp.isBefore_eq_false_trans (hnewest s hs (hsid.trans hid)) hnotBefore

theorem Newest.congr {all : List Record} {found : Option Record} (h : Newest items id found)
    (hmem : ∀ r, r ∈ items ↔ r ∈ all) : Newest all id found :=
  h.of_dominated (fun r hr => (hmem r).mp hr) fun r hr =>
    ⟨r, (hmem r).mpr hr, rfl, Timestamp.isBefore_self _⟩

/-- A record that comes in changes nothing for an identifier that it does not have, or of which a
record at least as new is there. -/
theorem Newest.append_older {found : Option Record} (h : Newest items id found) {record : Record}
    (hold : record.id = id →
      ∃ stored ∈ found, stored.updatedAt.isBefore record.updatedAt = false) :
    Newest (items ++ [record]) id found := by
  cases found with
  | none =>
    intro other hother hid
    obtain hother | hother := List.mem_append.mp hother
    · exact h other hother hid
    · obtain ⟨_, hnone, -⟩ := hold (List.mem_singleton.mp hother ▸ hid)
      cases hnone
  | some r =>
    obtain ⟨hmem, hr, hnewest⟩ := h
    refine ⟨List.mem_append_left _ hmem, hr, fun other hother hid => ?_⟩
    obtain hother | hother := List.mem_append.mp hother
    · exact hnewest other hother hid
    · obtain rfl : other = record := List.mem_singleton.mp hother
      obtain ⟨_, hstored, hnotBefore⟩ := hold hid
      rwa [← Option.some.inj hstored] at hnotBefore

/-- A record that is newer than the newest one takes its place. -/
theorem Newest.append_newer {found : Option Record} {record : Record}
    (h : Newest items record.id found)
    (hnewer : ∀ stored ∈ found, stored.updatedAt.isBefore record.updatedAt = true) :
    Newest (items ++ [record]) record.id (some record) := by
  refine ⟨List.mem_append_right _ (List.mem_singleton_self _), rfl, fun other hother hid => ?_⟩
  obtain hother | hother := List.mem_append.mp hother
  · cases found with
    | none => exact absurd hid (h other hother)
    | some stored =>
      have hle : stored.updatedAt.isBefore other.updatedAt = false := h.2.2 other hother hid
      have hlt : record.updatedAt.isBefore stored.updatedAt = false :=
        Timestamp.isBefore_asymm (hnewer stored rfl)
      exact Timestamp.isBefore_eq_false_trans hlt hle
  · rw [List.mem_singleton.mp hother]
    exact Timestamp.isBefore_self _

/-- Where records of one identifier and one time are equal, there is only one newest record. -/
theorem Newest.unique
    (htied : ∀ a ∈ items, ∀ b ∈ items, a.id = b.id → a.updatedAt = b.updatedAt → a = b)
    {x y : Option Record} (hx : Newest items id x) (hy : Newest items id y) : x = y := by
  cases x with
  | none =>
    cases y with
    | none => rfl
    | some b => exact absurd hy.2.1 (hx b hy.1)
  | some a =>
    cases y with
    | none => exact absurd hx.2.1 (hy a hx.1)
    | some b =>
      obtain ⟨ha, haid, hanewest⟩ := hx
      obtain ⟨hb, hbid, hbnewest⟩ := hy
      have htime : a.updatedAt = b.updatedAt :=
        Timestamp.eq_of_isBefore_eq_false (hanewest b hb hbid) (hbnewest a ha haid)
      rw [htied a ha b hb (haid.trans hbid.symm) htime]

/-! ## 2. One record merged in -/

/-- A record that is merged in is put in its place, unless one is stored that is at least as new. -/
theorem merge_cases (state : List Record × Nat) (record : Record) :
    (merge state record = (put record state.1, state.2 + 1) ∧
      ∀ stored ∈ find? record.id state.1, stored.updatedAt.isBefore record.updatedAt = true) ∨
    (merge state record = state ∧ ∃ stored, find? record.id state.1 = some stored ∧
      stored.updatedAt.isBefore record.updatedAt = false) := by
  unfold merge
  cases hfind : find? record.id state.1 with
  | none =>
    left
    rw [put_of_find?_eq_none hfind]
    exact ⟨rfl, by rintro _ ⟨⟩⟩
  | some stored =>
    cases hbefore : stored.updatedAt.isBefore record.updatedAt with
    | true =>
      left
      refine ⟨by simp only [hbefore, if_true], ?_⟩
      rintro _ ⟨⟩
      exact hbefore
    | false =>
      right
      refine ⟨?_, stored, rfl, hbefore⟩
      simp only [hbefore, Bool.false_eq_true, if_false]

/-- What is found after a merge is the newest of what was there before and the record. -/
theorem newest_merge {state : List Record × Nat} (h : ∀ id, Newest items id (find? id state.1))
    (record : Record) (id : String) :
    Newest (items ++ [record]) id (find? id (merge state record).1) := by
  obtain ⟨hmerge, hnewer⟩ | ⟨hmerge, stored, hstored, hnotBefore⟩ := merge_cases state record
  · rw [hmerge, find?_put]
    split
    next hid =>
      subst hid
      exact (h record.id).append_newer hnewer
    next hid => exact (h id).append_older fun hsame => absurd hsame.symm hid
  · rw [hmerge]
    refine (h id).append_older fun hsame => ?_
    rw [← hsame]
    exact ⟨stored, hstored, hnotBefore⟩

/-! ## 3. All records merged in -/

theorem newest_foldl_merge (incoming : List Record) {items : List Record}
    {state : List Record × Nat} (h : ∀ id, Newest items id (find? id state.1)) (id : String) :
    Newest (items ++ incoming) id (find? id (incoming.foldl merge state).1) := by
  -- each record moves over to what is there before the rest comes in
  induction incoming generalizing items state with
  | nil =>
    rw [List.append_nil]
    exact h id
  | cons record rest ih =>
    have hrest := ih (newest_merge h record)
    rwa [List.append_assoc, List.singleton_append] at hrest

/-- Under every identifier the newest record stays of all that were stored or came in. -/
theorem newest_mergeAll {stored : List Record} (h : ∀ id, Newest items id (find? id stored))
    (incoming : List Record) (id : String) :
    Newest (items ++ incoming) id (find? id (mergeAll stored incoming).1) :=
  @newest_foldl_merge incoming items (stored, 0) h id

theorem mem_of_mem_put {record r : Record} (h : r ∈ put record items) : r = record ∨ r ∈ items := by
  induction items with
  | nil => exact .inl (List.mem_singleton.mp h)
  | cons item rest ih =>
    rw [put] at h
    split at h
    next =>
      obtain rfl | hrest := List.mem_cons.mp h
      · exact .inl rfl
      · exact .inr (List.mem_cons_of_mem _ hrest)
    next =>
      obtain rfl | hrest := List.mem_cons.mp h
      · exact .inr List.mem_cons_self
      · exact (ih hrest).imp_right (List.mem_cons_of_mem _)

/-- Nothing is stored but what was stored before or came in. -/
theorem mergeAll_subset {stored all : List Record} (hstored : stored ⊆ all)
    (hincoming : incoming ⊆ all) : (mergeAll stored incoming).1 ⊆ all := by
  refine List.foldlRecOn incoming merge (b := (stored, 0)) (motive := fun state => state.1 ⊆ all)
    hstored ?_
  intro state hstate record hrecord
  obtain ⟨hmerge, -⟩ | ⟨hmerge, -⟩ := merge_cases state record
  · rw [hmerge]
    intro r hr
    obtain rfl | hr := mem_of_mem_put hr
    · exact hincoming hrecord
    · exact hstate hr
  · rwa [hmerge]

/-- Where nothing newer comes in nothing is taken. -/
theorem mergeAll_eq_self {stored : List Record}
    (h : ∀ r ∈ incoming, ∃ s ∈ find? r.id stored, s.updatedAt.isBefore r.updatedAt = false) :
    mergeAll stored incoming = (stored, 0) := by
  refine List.foldlRecOn incoming merge (motive := fun state => state = (stored, 0)) rfl ?_
  rintro state rfl record hrecord
  obtain ⟨-, hnewer⟩ | ⟨hmerge, -⟩ := merge_cases (stored, 0) record
  · obtain ⟨s, hs, hnotBefore⟩ := h record hrecord
    rw [hnewer s hs] at hnotBefore
    cases hnotBefore
  · exact hmerge

/-- When nothing is taken everything stays as it is. -/
theorem fst_mergeAll_of_snd_eq_zero {stored : List Record}
    (h : (mergeAll stored incoming).2 = 0) : (mergeAll stored incoming).1 = stored := by
  revert h
  refine List.foldlRecOn incoming merge (b := (stored, 0))
    (motive := fun state => state.2 = 0 → state.1 = stored) (fun _ => rfl) ?_
  intro state hstate record _
  obtain ⟨hmerge, -⟩ | ⟨hmerge, -⟩ := merge_cases state record
  · rw [hmerge]
    exact fun hcount => absurd hcount (Nat.succ_ne_zero _)
  · rwa [hmerge]

end TextScore.Library

import Mathlib
import TextScore.Proofs.Library.Import

/-!
# Copy — a library carried over by its export

An export lists the newest records first, so when an empty library imports it, whatever comes second
under an identifier comes too late.  What is left are the first entries of the list, in their order,
and sorting them once more moves none of them.
-/

namespace TextScore.Library

open TextScore.Calendar

/-! ## 1. First entries -/

/-- The list without every entry whose identifier is listed before it. -/
def firstEntries (items : List Record) : List Record :=
  items.eraseDupsBy fun r s => r.id = s.id

@[simp] theorem firstEntries_nil : firstEntries [] = [] := rfl

theorem firstEntries_cons (record : Record) (rest : List Record) :
    firstEntries (record :: rest) =
      record :: firstEntries (rest.filter fun r => r.id ≠ record.id) := by
  unfold firstEntries
  rw [List.eraseDupsBy_cons]
  simp only [decide_eq_false_iff_not]

theorem firstEntries_sublist : (items : List Record) → (firstEntries items).Sublist items
  | [] => List.nil_sublist []
  | record :: rest => by
    rw [firstEntries_cons]
    have hrest := firstEntries_sublist (rest.filter fun r => r.id ≠ record.id)
    exact (hrest.trans List.filter_sublist).cons_cons record
  termination_by items => items.length
  decreasing_by
    rw [List.length_cons]
    exact Nat.lt_succ_of_le (List.length_filter_le _ rest)

/-! ## 2. Records that come in newest first -/

/-- No record is newer than one that is listed before it. -/
def NewestFirst (items : List Record) : Prop :=
  items.Pairwise fun a b => a.updatedAt.isBefore b.updatedAt = false

theorem NewestFirst.newestFirst_eq {items : List Record} (h : NewestFirst items) :
    newestFirst items = items := by
  unfold newestFirst
  apply List.mergeSort_of_pairwise
  exact h.imp fun hnotBefore => by rw [hnotBefore, Bool.not_false]

theorem NewestFirst.firstEntries {items : List Record} (h : NewestFirst items) :
    NewestFirst (firstEntries items) :=
  List.Pairwise.sublist (firstEntries_sublist items) h

section

variable {items listed : List Record} {record : Record} (taken : ℕ)

theorem merge_of_new (h : record.id ∉ items.map (·.id)) :
    merge (items, taken) record = (items ++ [record], taken + 1) := by
  have hnone : find? record.id items = none := by
    rwa [← isSome_find?_iff, Bool.not_eq_true, Option.isSome_eq_false_iff,
      Option.isNone_iff_eq_none] at h
  unfold merge
  rw [hnone]

/-- A record comes too late when none that is stored is older. -/
theorem merge_of_late (h : record.id ∈ items.map (·.id))
    (hlate : ∀ s ∈ items, s.updatedAt.isBefore record.updatedAt = false) :
    merge (items, taken) record = (items, taken) := by
  obtain ⟨-, hnewer⟩ | ⟨hmerge, -⟩ := merge_cases (items, taken) record
  · obtain ⟨stored, hfind⟩ := Option.isSome_iff_exists.mp (isSome_find?_iff.mpr h)
    have hstored := hlate stored (List.mem_of_find?_eq_some hfind)
    rw [hnewer stored hfind] at hstored
    cases hstored
  · exact hmerge

/-- What is new beside one record more is what is new under another identifier. -/
theorem filter_new_concat (items listed : List Record) (record : Record) :
    (listed.filter fun r => r.id ∉ (items ++ [record]).map (·.id)) =
      (listed.filter fun r => r.id ∉ items.map (·.id)).filter fun r => r.id ≠ record.id := by
  rw [List.filter_filter]
  apply List.filter_congr
  intro r _
  simp only [List.map_append, List.map_cons, List.map_nil, List.mem_append, List.mem_singleton,
    not_or, Bool.decide_and, Bool.and_comm]

/-- Where nothing that comes in is newer than what is stored, the first entries of the new
identifiers are added, and nothing else is taken. -/
theorem foldl_merge_of_newestFirst
    (hstored : ∀ s ∈ items, ∀ r ∈ listed, s.updatedAt.isBefore r.updatedAt = false)
    (hlisted : NewestFirst listed) :
    let added := firstEntries (listed.filter fun r => r.id ∉ items.map (·.id))
    listed.foldl merge (items, taken) = (items ++ added, taken + added.length) := by
  -- each record moves over to what is stored before the rest comes in
  induction listed generalizing items taken with
  | nil => simp
  | cons record rest ih =>
    obtain ⟨hfirst, hrest⟩ := List.pairwise_cons.mp hlisted
    have hlater : ∀ s ∈ items, ∀ r ∈ rest, s.updatedAt.isBefore r.updatedAt = false :=
      fun s hs r hr => hstored s hs r (List.mem_cons_of_mem _ hr)
    rw [List.foldl_cons]
    by_cases hmem : record.id ∈ items.map (·.id)
    · rw [merge_of_late taken hmem fun s hs => hstored s hs record List.mem_cons_self,
        List.filter_cons_of_neg (by simpa using hmem)]
      exact ih taken hlater hrest
    · have hadded : ∀ s ∈ items ++ [record], ∀ r ∈ rest,
          s.updatedAt.isBefore r.updatedAt = false := by
        intro s hs r hr
        obtain hs | hs := List.mem_append.mp hs
        · exact hlater s hs r hr
        · rw [List.mem_singleton.mp hs]
          exact hfirst r hr
      rw [merge_of_new taken hmem, ih (taken + 1) hadded hrest,
        List.filter_cons_of_pos (by simpa using hmem), firstEntries_cons, filter_new_concat]
      simp only [List.append_assoc, List.singleton_append, List.length_cons]
      rw [Nat.add_assoc, Nat.add_comm 1]

theorem mergeAll_nil_of_newestFirst {listed : List Record} (h : NewestFirst listed) :
    mergeAll [] listed = (firstEntries listed, (firstEntries listed).length) := by
  have hmerged := foldl_merge_of_newestFirst 0 (fun s (hs : s ∈ []) => nomatch hs) h
  simpa [mergeAll] using hmerged

end

/-! ## 3. A copy -/

section

variable {σ : Type} [Store σ] {store : σ} {listed : List Record}

theorem result_list (store : σ) :
    (list store).result = (Store.read store).result.map newestFirst := rfl

theorem newestFirst_of_list (h : (list store).result = .ok listed) : NewestFirst listed := by
  rw [result_list] at h
  cases hread : (Store.read store).result with
  | error e =>
    rw [hread] at h
    cases h
  | ok items =>
    rw [hread] at h
    obtain rfl : newestFirst items = listed := Except.ok.inj h
    exact newestFirst_pairwise items

/-- An empty library in memory that imports what any other one exports takes and lists exactly the
first entries of that one's list.  The export is assumed to be read back as it was encoded; where
nothing can be listed, nothing can be exported either. -/
theorem copy_lists_first_entries (store : σ) :
    (∀ e, (list store).result = .error e → (exportText store).result = .error e) ∧
      ∀ listed, (list store).result = .ok listed → decode (encode listed) = .ok listed →
        ∃ text, (exportText store).result = .ok text ∧
          let copy := importText MemoryStore.empty text
          copy.answer = .ok (firstEntries listed).length ∧
            (list copy.store).result = .ok (firstEntries listed) := by
  have hexport : (exportText store).result = (list store).result.map encode := rfl
  refine ⟨fun e he => ?_, fun listed hlist hdecode => ⟨encode listed, ?_, ?_⟩⟩
  · rw [hexport, he]
    rfl
  · rw [hexport, hlist]
    rfl
  · have hsorted := newestFirst_of_list hlist
    obtain ⟨hanswer, hstore⟩ := importText_memory [] hdecode
    rw [mergeAll_nil_of_newestFirst hsorted] at hanswer hstore
    refine ⟨hanswer, ?_⟩
    show (list (importText (⟨[]⟩ : MemoryStore) (encode listed)).store).result = _
    rw [hstore]
    exact congrArg Except.ok hsorted.firstEntries.newestFirst_eq

end

/-- A file in no order: two versions of one record, the later one behind, and two records of one
time. -/
def attic : List Record :=
  [⟨"etude", "Old Etude", ⟨0, 0⟩, "C4 q", 90⟩, ⟨"waltz", "Waltz", ⟨30, 0⟩, "E4 h.", 60⟩,
    ⟨"etude", "Etude", ⟨10, 0⟩, "C4 w", 90⟩, ⟨"scale", "Scale", ⟨30, 0⟩, "C4 q D4 q", 60⟩]

/-- What is left of it: the later version, and the records of one time in order. -/
def tidyAttic : List Record :=
  [⟨"waltz", "Waltz", ⟨30, 0⟩, "E4 h.", 60⟩, ⟨"scale", "Scale", ⟨30, 0⟩, "C4 q D4 q", 60⟩,
    ⟨"etude", "Etude", ⟨10, 0⟩, "C4 w", 90⟩]

theorem attic_is_copied :
    let file : FileStore := ⟨"library.json", .text (encode attic)⟩
    let listed := newestFirst attic
    (list file).result = .ok listed ∧ decode (encode listed) = .ok listed ∧
      ∃ text, (exportText file).result = .ok text ∧
        (importText MemoryStore.empty text).answer = .ok 3 ∧
        (list (importText MemoryStore.empty text).store).result = .ok tidyAttic := by
  intro file listed
  have hattic : decode (encode attic) = .ok attic := by
    rw [decode_encode_iff]
    decide +kernel
  have hkeeps : FileContent.Keeps (.text (encode attic)) attic := hattic
  have hlist : (list file).result = .ok listed := by
    rw [result_list, (holds_file _ hkeeps).1.read, Except.map]
  have hdecode : decode (encode listed) = .ok listed := by
    rw [decode_encode_iff] at hattic ⊢
    exact fun r hr => hattic r ((newestFirst_perm attic).mem_iff.mp hr)
  have hfirst : firstEntries (newestFirst attic) = tidyAttic := by cbv
  obtain ⟨text, htext, hcopy⟩ := (copy_lists_first_entries file).2 listed hlist hdecode
  rw [hfirst] at hcopy
  exact ⟨hlist, hdecode, text, htext, hcopy⟩

end TextScore.Library

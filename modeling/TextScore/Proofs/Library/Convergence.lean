import Mathlib
import TextScore.Proofs.Library.Envelope
import TextScore.Proofs.Library.Merge
import TextScore.Proofs.Library.Memory

/-!
# Convergence — libraries that exchange their exports agree

Two libraries in memory import what the other one exports.  Each exchange stores nothing but what was
there at first, and keeps the newest records.  Once both have imported, both hold the newest record
of every identifier, and exchanging more changes nothing.
-/

namespace TextScore.Library

open TextScore.Calendar

/-! ## 1. Exchanges -/

/-- A library imports what another one exports: what it then is, and what it answers. -/
def MemoryStore.pull (store source : MemoryStore) : MemoryStore × Except ScoreError Nat :=
  match (exportText source).result with
  | .ok text =>
    let reply := importText store text
    (reply.store, reply.answer)
  | .error e => (store, .error e)

inductive Side where
  | left
  | right
  deriving DecidableEq

def Side.other : Side → Side
  | left => right
  | right => left

theorem Side.other_ne (side : Side) : side.other ≠ side := by
  cases side <;> decide

theorem Side.other_other (side : Side) : side.other.other = side := by
  cases side <;> rfl

theorem Side.eq_or_eq_other (side first : Side) : side = first ∨ side = first.other := by
  cases side <;> cases first <;> decide

/-- Two libraries in memory that exchange what they hold. -/
abbrev Pair := Side → MemoryStore

namespace Pair

/-- The library on one side imports from the other, which is left as it is. -/
def exchange (p : Pair) (importer : Side) : Pair × Except ScoreError Nat :=
  let pulled := (p importer).pull (p importer.other)
  (Function.update p importer pulled.1, pulled.2)

/-- Exchanges one after the other, each given by the side that imports. -/
def run (p : Pair) (importers : List Side) : Pair :=
  importers.foldl (fun p importer => (p.exchange importer).1) p

/-- What the two hold together. -/
def records (p : Pair) : List Record :=
  (p .left).items ++ (p .right).items

end Pair

/-- What is exported can be read, so pulling merges the records of the source in. -/
theorem MemoryStore.pull_eq (store : MemoryStore) {source : MemoryStore}
    (h : ∀ r ∈ source.items, r.Survives) :
    let merged := mergeAll store.items (newestFirst source.items)
    store.pull source = (⟨merged.1⟩, .ok merged.2) := by
  intro merged
  have hexport : (exportText source).result = .ok (encode (newestFirst source.items)) := rfl
  have hdecode : decode (encode (newestFirst source.items)) = .ok (newestFirst source.items) :=
    decode_encode_iff.mpr fun r hr => h r ((newestFirst_perm source.items).mem_iff.mp hr)
  have hstored : (if merged.2 = 0 then none else some merged.1).getD store.items = merged.1 := by
    split
    next hnone => exact (fst_mergeAll_of_snd_eq_zero hnone).symm
    next => rfl
  unfold pull
  rw [hexport]
  simp only [importText, hdecode, update_memory]
  exact Prod.ext (congrArg MemoryStore.mk hstored) rfl

namespace Pair

variable {p : Pair} {all : List Record}

theorem mem_records_iff (p : Pair) (side : Side) {r : Record} :
    r ∈ p.records ↔ r ∈ (p side).items ∨ r ∈ (p side.other).items := by
  cases side with
  | left => exact List.mem_append
  | right => exact List.mem_append.trans or_comm

theorem mem_records {side : Side} {r : Record} (h : r ∈ (p side).items) : r ∈ p.records :=
  (mem_records_iff p side).mpr (.inl h)

theorem exchange_eq {importer : Side} (h : ∀ r ∈ (p importer.other).items, r.Survives) :
    let merged := mergeAll (p importer).items (newestFirst (p importer.other).items)
    p.exchange importer = (Function.update p importer ⟨merged.1⟩, .ok merged.2) := by
  intro merged
  unfold exchange
  rw [MemoryStore.pull_eq (p importer) h]

/-! ## 2. Libraries that agree -/

/-- Both libraries hold the newest of all records under every identifier, and nothing else. -/
structure Agrees (p : Pair) (all : List Record) : Prop where
  subset : ∀ side, (p side).items ⊆ all
  newest : ∀ side id, Newest all id (find? id (p side).items)

/-- Libraries that agree have nothing to take from each other. -/
theorem Agrees.exchange_eq_self (h : p.Agrees all) (hsurvive : ∀ r ∈ all, r.Survives)
    (importer : Side) : p.exchange importer = (p, .ok 0) := by
  have hmerged : mergeAll (p importer).items (newestFirst (p importer.other).items) =
      ((p importer).items, 0) := by
    apply mergeAll_eq_self
    -- whatever comes in is one of all the records, so the newest of them is held already
    intro r hr
    have hmem : r ∈ all :=
      h.subset importer.other ((newestFirst_perm (p importer.other).items).mem_iff.mp hr)
    obtain ⟨s, hs, -, hnotBefore⟩ := (h.newest importer r.id).exists_of_mem hmem
    exact ⟨s, hs, hnotBefore⟩
  rw [exchange_eq fun r hr => hsurvive r (h.subset importer.other hr), hmerged]
  exact Prod.ext (Function.update_eq_self importer p) rfl

theorem Agrees.run_eq_self (h : p.Agrees all) (hsurvive : ∀ r ∈ all, r.Survives)
    (importers : List Side) : p.run importers = p := by
  induction importers with
  | nil => rfl
  | cons importer rest ih =>
    show (p.exchange importer).1.run rest = p
    rw [h.exchange_eq_self hsurvive, ih]

/-! ## 3. Two exchanges -/

variable (hnodup : ∀ side, ((p side).items.map (·.id)).Nodup)
  (hsurvive : ∀ r ∈ p.records, r.Survives) (first : Side)

/-- What the first side holds once it has imported. -/
def taken (p : Pair) (first : Side) : List Record × Nat :=
  mergeAll (p first).items (newestFirst (p first.other).items)

/-- What the other side then holds when it imports in turn. -/
def returned (p : Pair) (first : Side) : List Record × Nat :=
  mergeAll (p first.other).items (newestFirst (p.taken first).1)

theorem taken_subset : (p.taken first).1 ⊆ p.records := by
  apply mergeAll_subset fun r hr => mem_records hr
  intro r hr
  exact mem_records ((newestFirst_perm (p first.other).items).mem_iff.mp hr)

theorem returned_subset : (p.returned first).1 ⊆ p.records := by
  apply mergeAll_subset fun r hr => mem_records hr
  intro r hr
  exact taken_subset first ((newestFirst_perm _).mem_iff.mp hr)

include hnodup in
theorem newest_taken (id : String) : Newest p.records id (find? id (p.taken first).1) := by
  have hmerged := newest_mergeAll (newest_find? (hnodup first))
    (newestFirst (p first.other).items) id
  apply hmerged.congr
  intro r
  rw [List.mem_append, (newestFirst_perm (p first.other).items).mem_iff, mem_records_iff p first]

include hnodup in
/-- What comes back holds the newest records already, although not all the older ones. -/
theorem newest_returned (id : String) : Newest p.records id (find? id (p.returned first).1) := by
  have hmerged := newest_mergeAll (newest_find? (hnodup first.other))
    (newestFirst (p.taken first).1) id
  apply hmerged.of_dominated
  · rw [List.append_subset]
    refine ⟨fun r hr => mem_records hr, fun r hr => ?_⟩
    exact taken_subset first ((newestFirst_perm _).mem_iff.mp hr)
  · intro r hr
    -- an older record of the first side is gone, but the newest of its identifier comes back
    obtain ⟨s, hs, hid, hnotBefore⟩ := (newest_taken hnodup first r.id).exists_of_mem hr
    have hmem : s ∈ newestFirst (p.taken first).1 :=
      (newestFirst_perm _).mem_iff.mpr (List.mem_of_find?_eq_some hs)
    exact ⟨s, List.mem_append_right _ hmem, hid, hnotBefore⟩

include hsurvive

theorem exchange_first :
    p.exchange first = (Function.update p first ⟨(p.taken first).1⟩, .ok (p.taken first).2) :=
  exchange_eq fun r hr => hsurvive r (mem_records hr)

theorem exchange_other :
    let q : Pair := Function.update p first ⟨(p.taken first).1⟩
    q.exchange first.other =
      (Function.update q first.other ⟨(p.returned first).1⟩, .ok (p.returned first).2) := by
  intro q
  have hfirst : q first.other.other = ⟨(p.taken first).1⟩ := by
    rw [first.other_other]
    exact Function.update_self first _ p
  have hother : q first.other = p first.other := Function.update_of_ne first.other_ne _ p
  have hread : ∀ r ∈ (q first.other.other).items, r.Survives := by
    rw [hfirst]
    exact fun r hr => hsurvive r (taken_subset first hr)
  rw [exchange_eq hread, hfirst, hother]
  rfl

theorem run_first :
    (p.run [first, first.other]) first = ⟨(p.taken first).1⟩ := by
  show ((p.exchange first).1.exchange first.other).1 first = _
  rw [exchange_first hsurvive]
  simp only [exchange_other hsurvive]
  rw [Function.update_of_ne first.other_ne.symm, Function.update_self]

theorem run_other :
    (p.run [first, first.other]) first.other = ⟨(p.returned first).1⟩ := by
  show ((p.exchange first).1.exchange first.other).1 first.other = _
  rw [exchange_first hsurvive]
  simp only [exchange_other hsurvive]
  rw [Function.update_self]

include hnodup in
/-- Once both have imported, both hold the newest records. -/
theorem agrees_run : (p.run [first, first.other]).Agrees p.records where
  subset side := by
    obtain rfl | rfl := side.eq_or_eq_other first
    · rw [run_first hsurvive]
      exact taken_subset side
    · rw [run_other hsurvive]
      exact returned_subset first
  newest side id := by
    obtain rfl | rfl := side.eq_or_eq_other first
    · rw [run_first hsurvive]
      exact newest_taken hnodup side id
    · rw [run_other hsurvive]
      exact newest_returned hnodup first id

end Pair

/-- Where no two libraries disagree on a record of one time, no two of all records do. -/
theorem Pair.eq_of_tied {p : Pair} (hnodup : ∀ side, ((p side).items.map (·.id)).Nodup)
    (htied : ∀ a ∈ (p .left).items, ∀ b ∈ (p .right).items,
      a.id = b.id → a.updatedAt = b.updatedAt → a = b) :
    ∀ a ∈ p.records, ∀ b ∈ p.records, a.id = b.id → a.updatedAt = b.updatedAt → a = b := by
  intro a ha b hb hid htime
  obtain ha | ha := List.mem_append.mp ha
  · obtain hb | hb := List.mem_append.mp hb
    · exact List.inj_on_of_nodup_map (hnodup .left) ha hb hid
    · exact htied a ha b hb hid htime
  · obtain hb | hb := List.mem_append.mp hb
    · exact (htied b hb a ha hid.symm htime.symm).symm
    · exact List.inj_on_of_nodup_map (hnodup .right) ha hb hid

/-- Two libraries in memory import each other's export, in either order.  Then both answer for every
identifier with the newest of all records that they held at first, the same whichever imported first,
and any further exchange takes nothing and changes nothing.  Records of one identifier and one time
are assumed to be equal, and to be read back as they were encoded. -/
theorem exchanges_converge (p : Pair) (hnodup : ∀ side, ((p side).items.map (·.id)).Nodup)
    (htied : ∀ a ∈ (p .left).items, ∀ b ∈ (p .right).items,
      a.id = b.id → a.updatedAt = b.updatedAt → a = b)
    (hdecode : ∀ side, decode (encode (p side).items) = .ok (p side).items)
    (first : Side) (later : List Side) :
    let both := p.run [first, first.other]
    (∃ taken returned, (p.exchange first).2 = .ok taken ∧
        ((p.run [first]).exchange first.other).2 = .ok returned) ∧
      (∀ id, ∃ newest, Newest p.records id newest ∧
        ∀ side, (load (both side) id).result = newest.elim (.error (.notFound id)) .ok) ∧
      (∀ id side, (load ((p.run [first.other, first]) side) id).result =
        (load (both side) id).result) ∧
      ∀ importer, (both.run later).exchange importer = (both, .ok 0) := by
  intro both
  have hsurvive : ∀ r ∈ p.records, r.Survives := by
    intro r hr
    obtain hr | hr := List.mem_append.mp hr
    · exact decode_encode_iff.mp (hdecode .left) r hr
    · exact decode_encode_iff.mp (hdecode .right) r hr
  have hunique := Pair.eq_of_tied hnodup htied
  have hboth : both.Agrees p.records := Pair.agrees_run hnodup hsurvive first
  have hswapped : (p.run [first.other, first]).Agrees p.records := by
    have h := Pair.agrees_run hnodup hsurvive first.other
    rwa [first.other_other] at h
  refine ⟨⟨(p.taken first).2, (p.returned first).2, ?_, ?_⟩, fun id => ?_, fun id side => ?_,
    fun importer => ?_⟩
  · rw [Pair.exchange_first hsurvive]
  · show ((p.exchange first).1.exchange first.other).2 = _
    rw [Pair.exchange_first hsurvive]
    simp only [Pair.exchange_other hsurvive]
  · refine ⟨_, hboth.newest first id, fun side => ?_⟩
    rw [load_memory, (hboth.newest side id).unique hunique (hboth.newest first id)]
  · rw [load_memory, load_memory, (hswapped.newest side id).unique hunique (hboth.newest side id)]
  · rw [hboth.run_eq_self hsurvive, hboth.exchange_eq_self hsurvive]

def revision : Record := ⟨"etude", "Etude II", ⟨60, 0⟩, "D4 w", 90⟩

/-- Two libraries with one record in common, one in two versions, and one that only one of them has. -/
def deskAndStage : Pair
  | .left => ⟨[⟨"etude", "Etude", ⟨0, 0⟩, "C4 w", 90⟩, ⟨"scale", "Scale", ⟨20, 0⟩, "C4 q", 60⟩]⟩
  | .right => ⟨[⟨"scale", "Scale", ⟨20, 0⟩, "C4 q", 60⟩, ⟨"waltz", "Waltz", ⟨30, 5⟩, "E4 h.", 120.5⟩,
      revision]⟩

/-- Both end with the later version, whatever they exchange afterwards. -/
theorem deskAndStage_converges :
    let both := deskAndStage.run [.left, .right]
    (∀ side, ((deskAndStage side).items.map (·.id)).Nodup) ∧
      (∀ a ∈ (deskAndStage .left).items, ∀ b ∈ (deskAndStage .right).items,
        a.id = b.id → a.updatedAt = b.updatedAt → a = b) ∧
      (∀ side, decode (encode (deskAndStage side).items) = .ok (deskAndStage side).items) ∧
      (∀ side, (load (both side) "etude").result = .ok revision) ∧
      (both.run [.right, .left, .left]).exchange .right = (both, .ok 0) := by
  intro both
  have hnodup : ∀ side, ((deskAndStage side).items.map (·.id)).Nodup := by
    intro side
    cases side <;> decide
  have htied : ∀ a ∈ (deskAndStage .left).items, ∀ b ∈ (deskAndStage .right).items,
      a.id = b.id → a.updatedAt = b.updatedAt → a = b := by
    decide +kernel
  have hdecode : ∀ side, decode (encode (deskAndStage side).items) = .ok (deskAndStage side).items := by
    intro side
    rw [decode_encode_iff]
    cases side <;> decide +kernel
  obtain ⟨-, hnewest, -, hsettled⟩ :=
    exchanges_converge deskAndStage hnodup htied hdecode .left [.right, .left, .left]
  have hrevision : Newest deskAndStage.records "etude" (some revision) :=
    ⟨by decide +kernel, rfl, by decide +kernel⟩
  obtain ⟨newest, hfound, hload⟩ := hnewest "etude"
  obtain rfl := hfound.unique (Pair.eq_of_tied hnodup htied) hrevision
  exact ⟨hnodup, htied, hdecode, hload, hsettled .right⟩

end TextScore.Library

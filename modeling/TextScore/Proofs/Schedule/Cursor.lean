import Mathlib
import TextScore.Proofs.Decimal.Line
import TextScore.Schedule

/-!
# Cursor — the note at a time

The search looks at a few starts only and at one end.  On events whose starts are in order it finds
the last one that has started; and if no event reaches into the next one, that is the only event
that can be on.
-/

namespace TextScore

open Decimal

/-- The event has started and has not ended. -/
structure Event.IsOnAt (e : Event Float) (time : Float) : Prop where
  started : e.timeSeconds ≤ time
  unfinished : time < e.endSeconds

namespace Schedule

/-! ## 1. Halving -/

/-- If `p` holds of everything before what it holds of, the search finds where it stops to hold. -/
theorem bisect_spec {p : ℕ → Bool} (hp : ∀ i j, i ≤ j → p j = true → p i = true) (base size : ℕ) :
    base ≤ bisect p base size ∧ bisect p base size ≤ base + size ∧
      ∀ i, base ≤ i → i < base + size → (p i = true ↔ i < bisect p base size) := by
  fun_induction bisect p base size with
  | case1 base size hsize half ih =>
    have hhalf : half ≤ size - half := by omega
    by_cases hmid : p (base + half) = true
    · -- all of the left half holds
      rw [dif_pos hmid] at ih
      rw [if_pos hmid]
      obtain ⟨hlow, hhigh, hin⟩ := ih
      refine ⟨by omega, by omega, fun i hi hlt => ?_⟩
      by_cases hleft : i < base + half
      · have hholds := hp i (base + half) (by omega) hmid
        exact ⟨fun _ => by omega, fun _ => hholds⟩
      · exact hin i (by omega) (by omega)
    · -- nothing from the middle on holds
      rw [dif_neg hmid] at ih
      rw [if_neg hmid]
      obtain ⟨hlow, hhigh, hin⟩ := ih
      refine ⟨hlow, by omega, fun i hi hlt => ?_⟩
      by_cases hright : i < base + (size - half)
      · exact hin i hi hright
      · have hfails : ¬p i = true := fun h => hmid (hp (base + half) i (by omega) h)
        exact ⟨fun h => absurd h hfails, fun h => by omega⟩
  | case2 base size hsize hone =>
    refine ⟨by omega, by omega, fun i hi hlt => ?_⟩
    obtain rfl : i = base := by omega
    exact ⟨fun _ => by omega, fun _ => hone.2⟩
  | case3 base size hsize hnone =>
    refine ⟨le_refl _, by omega, fun i hi hlt => ?_⟩
    obtain rfl : i = base := by omega
    exact ⟨fun h => absurd ⟨by omega, h⟩ hnone, fun h => by omega⟩

/-! ## 2. The last event started -/

/-- No event starts before one that stands in front of it. -/
def Chronological (events : List (Event Float)) : Prop :=
  ∀ (i j : ℕ) (e f : Event Float), i ≤ j → events[i]? = some e → events[j]? = some f →
    e.timeSeconds ≤ f.timeSeconds

theorem chronological_of_next {events : List (Event Float)}
    (hnumber : ∀ e ∈ events, e.timeSeconds.isNaN = false)
    (hnext : ∀ (k : ℕ) (e next : Event Float), events[k]? = some e → events[k + 1]? = some next →
      e.timeSeconds ≤ next.timeSeconds) : Chronological events := by
  intro i j e f hij he hf
  induction j, hij using Nat.le_induction generalizing f with
  | base =>
    obtain rfl : e = f := Option.some.inj (he.symm.trans hf)
    exact float_le_refl (hnumber e (List.mem_of_getElem? he))
  | succ j hij ih =>
    have hlt : j < events.length := by
      have := (List.getElem?_eq_some_iff.mp hf).1
      omega
    have hg := List.getElem?_eq_getElem hlt
    exact float_le_trans (ih _ hg) (hnext j _ f hg hf)

/-- What is asked of an index in the search. -/
def startedAt (events : List (Event Float)) (time : Float) (i : ℕ) : Bool :=
  events[i]?.any fun e => e.timeSeconds ≤ time

/-- Every event ends after it starts, and not after the next one starts.  There may be gaps between
events; no time is missing, since only numbers compare. -/
structure Apart (events : List (Event Float)) : Prop where
  starts : ∀ e ∈ events, ¬e.timeSeconds < 0
  ends : ∀ e ∈ events, e.timeSeconds < e.endSeconds
  next : ∀ (k : ℕ) (e next : Event Float), events[k]? = some e → events[k + 1]? = some next →
    ¬next.timeSeconds < e.endSeconds

/-- The event has started, and the next one has not. -/
structure LastStarted (events : List (Event Float)) (time : Float) (k : ℕ) (e : Event Float) :
    Prop where
  at_index : events[k]? = some e
  started : e.timeSeconds ≤ time
  next_waits : ∀ next, events[k + 1]? = some next → ¬next.timeSeconds ≤ time

section

variable {events : List (Event Float)} {time : Float}

theorem startedAt_eq_true_iff {k : ℕ} :
    startedAt events time k = true ↔ ∃ e, events[k]? = some e ∧ e.timeSeconds ≤ time := by
  unfold startedAt
  rw [Option.any_eq_true]
  simp only [decide_eq_true_eq]

theorem Chronological.startedAt_of_le (h : Chronological events) {i j : ℕ} (hij : i ≤ j)
    (hj : startedAt events time j = true) : startedAt events time i = true := by
  obtain ⟨f, hf, hstarted⟩ := startedAt_eq_true_iff.mp hj
  have hi : i < events.length := by
    have := (List.getElem?_eq_some_iff.mp hf).1
    omega
  have he := List.getElem?_eq_getElem hi
  exact startedAt_eq_true_iff.mpr ⟨_, he, float_le_trans (h i j _ f hij he hf) hstarted⟩

theorem Chronological.startedAt_iff (h : Chronological events) {k : ℕ} (hk : k < events.length) :
    startedAt events time k = true ↔ k < startedBy events time := by
  have hmono : ∀ i j, i ≤ j → startedAt events time j = true → startedAt events time i = true :=
    fun i j => h.startedAt_of_le
  obtain ⟨-, -, hin⟩ := bisect_spec hmono 0 events.length
  exact hin k (Nat.zero_le k) (by omega)

theorem Chronological.startedBy_le (h : Chronological events) (time : Float) :
    startedBy events time ≤ events.length := by
  have hmono : ∀ i j, i ≤ j → startedAt events time j = true → startedAt events time i = true :=
    fun i j => h.startedAt_of_le
  obtain ⟨-, hle, -⟩ := bisect_spec hmono 0 events.length
  rwa [Nat.zero_add] at hle

/-- The events that have started are counted up to the last one of them. -/
theorem Chronological.startedBy_eq_succ_iff (h : Chronological events) {k : ℕ} :
    startedBy events time = k + 1 ↔ ∃ e, LastStarted events time k e := by
  have hle := h.startedBy_le time
  constructor
  · intro hcount
    have hk : k < events.length := by omega
    have hcounted : startedAt events time k = true := (h.startedAt_iff hk).mpr (by omega)
    obtain ⟨e, he, hstarted⟩ := startedAt_eq_true_iff.mp hcounted
    refine ⟨e, he, hstarted, fun next hnext hearly => ?_⟩
    have hlt := (List.getElem?_eq_some_iff.mp hnext).1
    have := (h.startedAt_iff hlt).mp (startedAt_eq_true_iff.mpr ⟨next, hnext, hearly⟩)
    omega
  · rintro ⟨e, he, hstarted, hwaits⟩
    have hk := (List.getElem?_eq_some_iff.mp he).1
    have hcounted := (h.startedAt_iff hk).mp (startedAt_eq_true_iff.mpr ⟨e, he, hstarted⟩)
    by_contra hne
    have hlt : k + 1 < events.length := by omega
    have hmore : startedAt events time (k + 1) = true := (h.startedAt_iff hlt).mpr (by omega)
    obtain ⟨next, hnext, hearly⟩ := startedAt_eq_true_iff.mp hmore
    exact hwaits next hnext hearly

theorem Chronological.exists_lastStarted (h : Chronological events) {e : Event Float}
    (he : e ∈ events) (hstarted : e.timeSeconds ≤ time) :
    ∃ k last, LastStarted events time k last := by
  obtain ⟨i, hi⟩ := List.mem_iff_getElem?.mp he
  have hcounted := (h.startedAt_iff (List.getElem?_eq_some_iff.mp hi).1).mp
    (startedAt_eq_true_iff.mpr ⟨e, hi, hstarted⟩)
  obtain ⟨k, hk⟩ : ∃ k, startedBy events time = k + 1 := ⟨startedBy events time - 1, by omega⟩
  exact ⟨k, h.startedBy_eq_succ_iff.mp hk⟩

/-- The note at a time is that of the last event started, until it ends. -/
theorem Chronological.activeNote?_eq (h : Chronological events) (hneg : ¬time < 0) {k : ℕ}
    {e : Event Float} (hlast : LastStarted events time k e) :
    activeNote? events time = if time < e.endSeconds then some e.noteId else none := by
  unfold activeNote?
  rw [if_neg hneg, h.startedBy_eq_succ_iff.mpr ⟨e, hlast⟩]
  show (events[k]?.bind _) = _
  rw [hlast.at_index, Option.bind_some]

theorem Chronological.activeNote?_eq_none_of_waiting (h : Chronological events)
    (hwait : ∀ e ∈ events, ¬e.timeSeconds ≤ time) : activeNote? events time = none := by
  have hcount : startedBy events time = 0 := by
    by_contra hne
    obtain ⟨k, hk⟩ := Nat.exists_eq_succ_of_ne_zero hne
    obtain ⟨e, hlast⟩ := h.startedBy_eq_succ_iff.mp hk
    exact hwait e (List.mem_of_getElem? hlast.at_index) hlast.started
  unfold activeNote?
  rw [hcount]
  exact ite_self none

theorem Chronological.activeNote?_eq_some_iff (h : Chronological events) {id : NoteId} :
    activeNote? events time = some id ↔
      ¬time < 0 ∧ ∃ k e, LastStarted events time k e ∧ time < e.endSeconds ∧ e.noteId = id := by
  constructor
  · intro hactive
    have hneg : ¬time < 0 := by
      intro hneg
      rw [activeNote?, if_pos hneg] at hactive
      cases hactive
    by_cases hwait : ∀ e ∈ events, ¬e.timeSeconds ≤ time
    · rw [h.activeNote?_eq_none_of_waiting hwait] at hactive
      cases hactive
    · push Not at hwait
      obtain ⟨e, he, hstarted⟩ := hwait
      obtain ⟨k, last, hlast⟩ := h.exists_lastStarted he hstarted
      rw [h.activeNote?_eq hneg hlast] at hactive
      obtain ⟨hon, hid⟩ := Option.ite_none_right_eq_some.mp hactive
      exact ⟨hneg, k, last, hlast, hon, Option.some.inj hid⟩
  · rintro ⟨hneg, k, e, hlast, hon, hid⟩
    rw [h.activeNote?_eq hneg hlast, if_pos hon, hid]

/-! ## 3. Events apart -/

theorem Apart.isNaN (h : Apart events) {e : Event Float} (he : e ∈ events) :
    e.timeSeconds.isNaN = false ∧ e.endSeconds.isNaN = false := by
  obtain ⟨p, q, hstart, hend, -⟩ := exists_standsAt_of_lt (h.ends e he)
  exact ⟨hstart.isNaN, hend.isNaN⟩

theorem Apart.end_le_next (h : Apart events) {k : ℕ} {e next : Event Float}
    (he : events[k]? = some e) (hnext : events[k + 1]? = some next) :
    e.endSeconds ≤ next.timeSeconds :=
  float_le_of_not_lt (h.isNaN (List.mem_of_getElem? he)).2
    (h.isNaN (List.mem_of_getElem? hnext)).1 (h.next k e next he hnext)

theorem Apart.chronological (h : Apart events) : Chronological events :=
  chronological_of_next (fun _ he => (h.isNaN he).1) fun _ e _ he hnext =>
    float_le_trans (float_le_of_lt (h.ends e (List.mem_of_getElem? he))) (h.end_le_next he hnext)

/-- An event is over when any event behind it starts. -/
theorem Apart.end_le_start (h : Apart events) {i j : ℕ} {e f : Event Float} (hij : i < j)
    (he : events[i]? = some e) (hf : events[j]? = some f) : e.endSeconds ≤ f.timeSeconds := by
  have hlt : i + 1 < events.length := by
    have := (List.getElem?_eq_some_iff.mp hf).1
    omega
  have hnext := List.getElem?_eq_getElem hlt
  exact float_le_trans (h.end_le_next he hnext) (h.chronological (i + 1) j _ f hij hnext hf)

theorem Apart.end_le_end (h : Apart events) {i j : ℕ} {e f : Event Float} (hij : i ≤ j)
    (he : events[i]? = some e) (hf : events[j]? = some f) : e.endSeconds ≤ f.endSeconds := by
  have hmem := List.mem_of_getElem? hf
  rcases Nat.eq_or_lt_of_le hij with rfl | hlt
  · obtain rfl : e = f := Option.some.inj (he.symm.trans hf)
    exact float_le_refl (h.isNaN hmem).2
  · exact float_le_trans (h.end_le_start hlt he hf) (float_le_of_lt (h.ends f hmem))

/-- At most one event is on at a time. -/
theorem Apart.unique (h : Apart events) {i j : ℕ} {e f : Event Float} (he : events[i]? = some e)
    (hf : events[j]? = some f) (heon : e.IsOnAt time) (hfon : f.IsOnAt time) : i = j := by
  rcases Nat.lt_trichotomy i j with hlt | rfl | hlt
  · have hover := float_le_trans (h.end_le_start hlt he hf) hfon.started
    exact absurd heon.unfinished (float_not_lt hover)
  · rfl
  · have hover := float_le_trans (h.end_le_start hlt hf he) heon.started
    exact absurd hfon.unfinished (float_not_lt hover)

theorem Apart.activeNote?_eq_some_iff (h : Apart events) {id : NoteId} :
    activeNote? events time = some id ↔
      ∃ (k : ℕ) (e : Event Float), events[k]? = some e ∧ e.IsOnAt time ∧ e.noteId = id := by
  rw [h.chronological.activeNote?_eq_some_iff]
  constructor
  · rintro ⟨-, k, e, hlast, hend, hid⟩
    exact ⟨k, e, hlast.at_index, ⟨hlast.started, hend⟩, hid⟩
  · rintro ⟨k, e, he, hon, hid⟩
    have hmem := List.mem_of_getElem? he
    refine ⟨fun hneg => ?_, k, e, ⟨he, hon.started, fun next hnext hearly => ?_⟩, hon.unfinished,
      hid⟩
    · exact h.starts e hmem (float_lt_of_le_of_lt hon.started hneg)
    · have hover := float_le_trans (h.end_le_start (Nat.lt_succ_self k) he hnext) hearly
      exact float_not_lt hover hon.unfinished

/-- The note at a time is that of the one event that has started and has not ended.  Before zero, in
a gap and from the end of the last event on there is none. -/
theorem activeNote?_of_apart (h : Apart events) (time : Float) :
    (∀ id, activeNote? events time = some id ↔
      ∃ (k : ℕ) (e : Event Float), events[k]? = some e ∧ e.IsOnAt time ∧ e.noteId = id ∧
        ∀ (j : ℕ) (f : Event Float), events[j]? = some f → f.IsOnAt time → j = k) ∧
      (time < 0 → activeNote? events time = none) ∧
      (∀ (k : ℕ) (e next : Event Float), events[k]? = some e → events[k + 1]? = some next →
        e.endSeconds ≤ time → time < next.timeSeconds → activeNote? events time = none) ∧
      ∀ last, events.getLast? = some last → last.endSeconds ≤ time →
        activeNote? events time = none := by
  have hnone : (∀ (k : ℕ) (e : Event Float), events[k]? = some e → ¬e.IsOnAt time) →
      activeNote? events time = none := by
    intro hoff
    refine Option.eq_none_iff_forall_ne_some.mpr fun id hid => ?_
    obtain ⟨k, e, he, hon, -⟩ := h.activeNote?_eq_some_iff.mp hid
    exact hoff k e he hon
  refine ⟨fun id => ?_, fun hneg => ?_, fun k e next he hnext hover hwaits => ?_,
    fun last hlast hover => ?_⟩
  · rw [h.activeNote?_eq_some_iff]
    constructor
    · rintro ⟨k, e, he, hon, hid⟩
      exact ⟨k, e, he, hon, hid, fun j f hf hfon => h.unique hf he hfon hon⟩
    · rintro ⟨k, e, he, hon, hid, -⟩
      exact ⟨k, e, he, hon, hid⟩
  · exact if_pos hneg
  · -- an event up to this one is over, and one behind it waits
    refine hnone fun j f hf hon => ?_
    by_cases hjk : j ≤ k
    · have hended := float_le_trans (h.end_le_end hjk hf he) hover
      exact float_not_lt hended hon.unfinished
    · have hlater := h.chronological (k + 1) j next f (by omega) hnext hf
      exact float_not_lt (float_le_trans hlater hon.started) hwaits
  · refine hnone fun j f hf hon => ?_
    rw [List.getLast?_eq_getElem?] at hlast
    have hj := (List.getElem?_eq_some_iff.mp hf).1
    have hended := float_le_trans (h.end_le_end (by omega) hf hlast) hover
    exact float_not_lt hended hon.unfinished

end

/-- A note of one second, a second of nothing, and a rest of half a second. -/
def parted : List (Event Float) :=
  [⟨0, 1, some ⟨.C, .natural, 4⟩, ⟨1⟩, false⟩, ⟨2, 0.5, none, ⟨2⟩, true⟩]

theorem apart_parted : Apart parted where
  starts := by decide
  ends := by decide
  next k e next he hnext := by
    match k with
    | 0 =>
      obtain rfl := Option.some.inj he
      obtain rfl := Option.some.inj hnext
      decide
    | k + 1 => cases hnext

/-- The note is off at its end, the rest is on from its start, and at its end nothing is on. -/
theorem parted_on_and_off :
    Apart parted ∧ activeNote? parted 1 = none ∧ activeNote? parted 2 = some ⟨2⟩ ∧
      activeNote? parted 2.5 = none := by
  refine ⟨apart_parted, ?_, ?_, ?_⟩
  · exact (activeNote?_of_apart apart_parted 1).2.2.1 0 _ _ rfl rfl (by decide) (by decide)
  · refine ((activeNote?_of_apart apart_parted 2).1 ⟨2⟩).mpr
      ⟨1, _, rfl, ⟨by decide, by decide⟩, rfl, fun j f hf hon => ?_⟩
    exact apart_parted.unique hf rfl hon ⟨by decide, by decide⟩
  · exact (activeNote?_of_apart apart_parted 2.5).2.2.2 _ rfl (by decide)

end Schedule

end TextScore

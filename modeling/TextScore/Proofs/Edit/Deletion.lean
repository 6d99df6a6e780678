import Mathlib
import TextScore.Proofs.Edit.Effect

/-!
# Deletion — what leaves a document together with a note

A deletion filters the notes and then leaves out every measure that holds none.  That is the measure
it has emptied itself, but also any measure that held no note before.  So the measures that hold a
note are treated as one should expect: all are kept as they are but the one with the note, which
loses it and goes only if nothing is left.  A measure that was empty goes with any deletion, even
under a name that no note bears.
-/

namespace TextScore

/-- The measure without the notes of a name. -/
def Measure.without (m : Measure) (id : NoteId) : Measure :=
  { m with notes := m.notes.filter fun note => note.id ≠ id }

theorem Measure.without_eq_self {m : Measure} {id : NoteId} (h : ∀ note ∈ m.notes, note.id ≠ id) :
    m.without id = m := by
  have hnotes : (m.notes.filter fun note => note.id ≠ id) = m.notes := by
    rw [List.filter_eq_self]
    exact fun note hnote => decide_eq_true (h note hnote)
  unfold Measure.without
  rw [hnotes]

namespace Document

variable {doc : Document}

/-! ## 1. Measures without notes -/

/-- The measures that hold a note. -/
def pruned (doc : Document) : Document :=
  { doc with measures := doc.measures.filter fun m => !m.notes.isEmpty }

theorem filled_pruned (doc : Document) : doc.pruned.Filled := by
  intro m hm
  have hkept := (List.mem_filter.mp hm).2
  simpa using hkept

theorem noteIds_pruned (doc : Document) : doc.pruned.noteIds = doc.noteIds := by
  unfold noteIds notes pruned
  rw [flatMap_notes_filter_notes]

theorem measures_delete (doc : Document) (id : NoteId) :
    (doc.delete id).measures =
      (doc.measures.map (·.without id)).filter fun m => !m.notes.isEmpty := rfl

/-- A deletion leaves out the empty measures in any case, so it does not matter whether they have
been left out before. -/
theorem delete_pruned (doc : Document) (id : NoteId) : doc.pruned.delete id = doc.delete id := by
  have hmeasures : (doc.pruned.delete id).measures = (doc.delete id).measures := by
    rw [measures_delete, measures_delete]
    unfold pruned
    induction doc.measures with
    | nil => rfl
    | cons m rest ih =>
      by_cases hempty : m.notes = []
      -- an empty measure is still empty without the notes of a name
      · have hwithout : (m.without id).notes = [] := by
          unfold Measure.without
          rw [hempty]
          rfl
        rw [List.filter_cons_of_neg (by simp [hempty]), List.map_cons,
          List.filter_cons_of_neg (by simp [hwithout]), ih]
      · rw [List.filter_cons_of_pos (by simpa using hempty), List.map_cons, List.map_cons,
          List.filter_cons, List.filter_cons, ih]
  show { doc with measures := (doc.pruned.delete id).measures } = doc.delete id
  rw [hmeasures]
  rfl

/-! ## 2. The measure of a note -/

theorem mem_noteIds {id : NoteId} : id ∈ doc.noteIds ↔ ∃ note ∈ doc.notes, note.id = id :=
  List.mem_map

/-- A name that is borne is borne at some place of some measure. -/
theorem exists_place_of_mem_noteIds {id : NoteId} (h : id ∈ doc.noteIds) :
    ∃ before m after front note back, doc.measures = before ++ m :: after ∧
      m.notes = front ++ note :: back ∧ note.id = id := by
  obtain ⟨note, hnote, hid⟩ := mem_noteIds.mp h
  obtain ⟨m, hm, hmem⟩ := List.mem_flatMap.mp hnote
  obtain ⟨before, after, hmeasures⟩ := List.append_of_mem hm
  obtain ⟨front, back, hnotes⟩ := List.append_of_mem hmem
  exact ⟨before, m, after, front, note, back, hmeasures, hnotes, hid⟩

variable {before after : List Measure} {m : Measure} {front back : List Note} {note : Note}

/-- Where no name is borne twice, all notes around the one at a place have other names. -/
theorem ne_of_place (hnames : doc.noteIds.Nodup) (hmeasures : doc.measures = before ++ m :: after)
    (hnotes : m.notes = front ++ note :: back) :
    (∀ other ∈ front ++ back, other.id ≠ note.id) ∧
      ∀ other ∈ before ++ after, ∀ n ∈ other.notes, n.id ≠ note.id := by
  have hall : doc.notes =
      (before.flatMap (·.notes) ++ front) ++ note :: (back ++ after.flatMap (·.notes)) := by
    unfold notes
    rw [hmeasures, List.flatMap_append, List.flatMap_cons, hnotes]
    simp only [List.append_assoc, List.cons_append]
  have hother : ∀ n ∈ (before.flatMap (·.notes) ++ front) ++ (back ++ after.flatMap (·.notes)),
      n.id ≠ note.id := by
    unfold noteIds at hnames
    rw [hall, List.map_append, List.map_cons, List.nodup_middle, ← List.map_append] at hnames
    intro n hn heq
    exact (List.nodup_cons.mp hnames).1 (List.mem_map.mpr ⟨n, hn, heq⟩)
  constructor
  · intro n hn
    apply hother
    rcases List.mem_append.mp hn with hn | hn
    · exact List.mem_append_left _ (List.mem_append_right _ hn)
    · exact List.mem_append_right _ (List.mem_append_left _ hn)
  · intro other hmem n hn
    apply hother
    rcases List.mem_append.mp hmem with hmem | hmem
    · exact List.mem_append_left _ (List.mem_append_left _ (List.mem_flatMap.mpr ⟨other, hmem, hn⟩))
    · exact List.mem_append_right _
        (List.mem_append_right _ (List.mem_flatMap.mpr ⟨other, hmem, hn⟩))

/-! ## 3. One note and nothing else -/

/-- All that `edited` lacks of the document is the note of a name, and the measure of that note if
it held no other. -/
structure TakesOutOnly (id : NoteId) (doc edited : Document) : Prop where
  heading : edited.id = doc.id ∧ edited.title = doc.title ∧ edited.tempo = doc.tempo
  missing : id ∉ doc.noteIds → edited = doc
  shortens : ∀ before m after front note back, doc.measures = before ++ m :: after →
    m.notes = front ++ note :: back → note.id = id → front ++ back ≠ [] →
      edited.measures = before ++ { m with notes := front ++ back } :: after
  removes : ∀ before m after note, doc.measures = before ++ m :: after →
    m.notes = [note] → note.id = id → edited.measures = before ++ after

/-- Measures that hold notes, but none of the name, are all kept. -/
theorem filter_map_without {measures : List Measure} {id : NoteId}
    (hfilled : ∀ m ∈ measures, m.notes ≠ []) (hid : ∀ m ∈ measures, ∀ note ∈ m.notes, note.id ≠ id) :
    ((measures.map (·.without id)).filter fun m => !m.notes.isEmpty) = measures := by
  have hwithout : measures.map (·.without id) = measures :=
    map_eq_self_iff.mpr fun m hm => Measure.without_eq_self (hid m hm)
  rw [hwithout, List.filter_eq_self]
  intro m hm
  simpa using hfilled m hm

/-- The measures after a deletion, seen from the place of the note. -/
theorem measures_delete_of_place (hnames : doc.noteIds.Nodup) (hfilled : doc.Filled)
    (hmeasures : doc.measures = before ++ m :: after) (hnotes : m.notes = front ++ note :: back) :
    (doc.delete note.id).measures =
      before ++ ([{ m with notes := front ++ back }].filter fun m => !m.notes.isEmpty) ++ after := by
  obtain ⟨hinside, houtside⟩ := ne_of_place hnames hmeasures hnotes
  -- no measure in front of this one or behind it is empty or has the name, so all of them stay
  have hfilled : ∀ other ∈ before ++ m :: after, other.notes ≠ [] := by
    rw [← hmeasures]
    exact hfilled
  have hm : m.without note.id = { m with notes := front ++ back } := by
    have hkept : ∀ n ∈ front ++ back, decide (n.id ≠ note.id) = true := fun n hn =>
      decide_eq_true (hinside n hn)
    rw [List.forall_mem_append] at hkept
    unfold Measure.without
    rw [hnotes, List.filter_append, List.filter_cons_of_neg (by simp),
      List.filter_eq_self.mpr hkept.1, List.filter_eq_self.mpr hkept.2]
  rw [List.forall_mem_append] at houtside
  rw [List.forall_mem_append, List.forall_mem_cons] at hfilled
  rw [measures_delete, hmeasures, List.map_append, List.map_cons, hm, List.filter_append,
    ← List.singleton_append, List.filter_append, filter_map_without hfilled.1 houtside.1,
    filter_map_without hfilled.2.2 houtside.2, List.append_assoc]

theorem takesOutOnly_delete (hnames : doc.noteIds.Nodup) (hfilled : doc.Filled) (id : NoteId) :
    TakesOutOnly id doc (doc.delete id) where
  heading := ⟨rfl, rfl, rfl⟩
  missing hid := by
    rw [delete_eq_self_iff hfilled, find?_eq_none_iff]
    exact fun note hnote heq => hid (mem_noteIds.mpr ⟨note, hnote, heq⟩)
  shortens before m after front note back hmeasures hnotes hid hne := by
    subst hid
    rw [measures_delete_of_place hnames hfilled hmeasures hnotes,
      List.filter_cons_of_pos (by simpa using hne), List.filter_nil, List.append_assoc,
      List.singleton_append]
  removes before m after note hmeasures hnotes hid := by
    subst hid
    have hplace : m.notes = [] ++ note :: [] := hnotes
    rw [measures_delete_of_place hnames hfilled hmeasures hplace, List.append_nil,
      List.filter_cons_of_neg (by simp), List.filter_nil, List.append_nil]

/-- A deletion leaves no empty measure, so if it takes out one note only there was none. -/
theorem TakesOutOnly.filled {id : NoteId} {edited : Document} (h : TakesOutOnly id doc edited)
    (hedited : edited.Filled) : doc.Filled := by
  by_cases hid : id ∈ doc.noteIds
  · obtain ⟨before, m, after, front, note, back, hmeasures, hnotes, hnote⟩ :=
      exists_place_of_mem_noteIds hid
    have hm : m.notes ≠ [] := by
      rw [hnotes]
      exact List.append_ne_nil_of_right_ne_nil _ (List.cons_ne_nil _ _)
    -- the measures around the note's are still there, and each of them holds a note
    have haround : (∀ other ∈ before, other.notes ≠ []) ∧ ∀ other ∈ after, other.notes ≠ [] := by
      unfold Filled at hedited
      by_cases hrest : front ++ back = []
      · have hsingle : m.notes = [note] := by
          rw [hnotes, (List.append_eq_nil_iff.mp hrest).1, (List.append_eq_nil_iff.mp hrest).2]
          rfl
        rwa [h.removes before m after note hmeasures hsingle hnote, List.forall_mem_append]
          at hedited
      · rw [h.shortens before m after front note back hmeasures hnotes hnote hrest,
          List.forall_mem_append, List.forall_mem_cons] at hedited
        exact ⟨hedited.1, hedited.2.2⟩
    unfold Filled
    rw [hmeasures, List.forall_mem_append, List.forall_mem_cons]
    exact ⟨haround.1, hm, haround.2⟩
  · rwa [h.missing hid] at hedited

/-- Among the measures that hold notes, a deletion takes out the note of the name and nothing else.
Seen from the whole document this is so exactly if no measure is empty, and so it is only then that
a name which no note bears changes nothing. -/
theorem delete_takes_out_only_iff (hnames : doc.noteIds.Nodup) (id : NoteId) :
    TakesOutOnly id doc.pruned (doc.delete id) ∧
      (TakesOutOnly id doc (doc.delete id) ↔ doc.Filled) ∧
      (id ∉ doc.noteIds → (doc.delete id = doc ↔ doc.Filled)) := by
  have hnames' : doc.pruned.noteIds.Nodup := by rwa [noteIds_pruned]
  refine ⟨?_, ⟨?_, ?_⟩, ?_⟩
  · rw [← delete_pruned]
    exact takesOutOnly_delete hnames' doc.filled_pruned id
  · exact fun h => h.filled (filled_delete id)
  · exact fun hfilled => takesOutOnly_delete hnames hfilled id
  · intro hid
    constructor
    · intro h
      rw [← h]
      exact filled_delete id
    · exact fun hfilled => (takesOutOnly_delete hnames hfilled id).missing hid

/-- A measure that waits for its first note, and one with a note. -/
def begun : Document :=
  ⟨⟨1⟩, untitled, .standard,
    [⟨⟨1⟩, .common, []⟩, ⟨⟨2⟩, .common, [⟨⟨1⟩, .pitched ⟨.C, .natural, 4⟩, .whole⟩]⟩]⟩

/-- No note has the name, and yet the first measure is gone. -/
theorem begun_loses_its_first_measure :
    begun.noteIds.Nodup ∧ ⟨99⟩ ∉ begun.noteIds ∧ ¬begun.Filled ∧
      begun.delete ⟨99⟩ ≠ begun ∧
      ¬TakesOutOnly ⟨99⟩ begun (begun.delete ⟨99⟩) ∧
      (begun.delete ⟨99⟩).measures = begun.measures.tail := by
  have hnames : begun.noteIds.Nodup := by decide
  have hid : ⟨99⟩ ∉ begun.noteIds := by decide
  have hfilled : ¬begun.Filled := fun h => h ⟨⟨1⟩, .common, []⟩ (by decide) rfl
  obtain ⟨-, honly, hsame⟩ := delete_takes_out_only_iff hnames ⟨99⟩
  exact ⟨hnames, hid, hfilled, fun h => hfilled ((hsame hid).mp h),
    fun h => hfilled (honly.mp h), by decide⟩

end Document

end TextScore

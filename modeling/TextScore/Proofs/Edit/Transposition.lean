import Mathlib
import TextScore.Proofs.Edit.Commute
import TextScore.Proofs.Pitch.Degree

/-!
# Transposition — note by note, and in several goes

A transposition nudges all notes at once.  Nudging them one by one comes to the same in any order,
if no name is met twice: on the way, just the notes whose names have been met are moved.  Two
transpositions of one direction add up, since a pitch that passes a bound turns into the plain
bound, and a nudge the same way keeps it there.
-/

namespace TextScore

/-! ## 1. One note after the other -/

namespace Note

/-- The change `f` at the notes of some names. -/
def amongst (ids : List NoteId) (f : Note → Note) (note : Note) : Note :=
  if note.id ∈ ids then f note else note

/-- A change of one note more. -/
theorem amongst_comp_onlyAt {f : Note → Note} {id : NoteId} {ids : List NoteId}
    (hf : ∀ note, (f note).id = note.id) (hid : id ∉ ids) :
    amongst ids f ∘ onlyAt id f = amongst (id :: ids) f := by
  funext note
  show amongst ids f (if note.id = id then f note else note) = _
  unfold amongst
  by_cases hnote : note.id = id
  -- the changed note keeps its name, which does not come again
  · rw [if_pos hnote, hf, hnote, if_neg hid, if_pos List.mem_cons_self]
  · rw [if_neg hnote]
    simp only [List.mem_cons, hnote, false_or]

end Note

namespace Document

variable {doc : Document}

/-- After nudges by name, each name once, the notes of these names have moved and no others. -/
theorem foldl_nudge (doc : Document) (steps : Int32) {ids : List NoteId} (hids : ids.Nodup) :
    ids.foldl (fun edited id => edited.nudge id steps) doc =
      doc.mapNotes (Note.amongst ids (Note.moved steps)) := by
  -- over the names still to come, for any document that the earlier ones have made
  induction ids generalizing doc with
  | nil => exact (mapNotes_eq_self_iff.mpr fun note _ => if_neg List.not_mem_nil).symm
  | cons id rest ih =>
    obtain ⟨hid, hrest⟩ := List.nodup_cons.mp hids
    rw [List.foldl_cons, ih (doc.nudge id steps) hrest, nudge_eq_mapNotes, mapNotes_mapNotes,
      Note.amongst_comp_onlyAt (Note.id_moved steps) hid]

/-- Where no name is borne twice, nudging the notes one by one in any order is transposing. -/
theorem nudge_each_eq_transpose (hnames : doc.noteIds.Nodup) (steps : Int32) {ids : List NoteId}
    (hids : ids.Perm doc.noteIds) :
    ids.foldl (fun edited id => edited.nudge id steps) doc = doc.transpose steps := by
  have hnodup : ids.Nodup := hids.nodup_iff.mpr hnames
  have hall : ∀ note ∈ doc.notes, note.id ∈ ids := fun note hnote =>
    hids.mem_iff.mpr (mem_noteIds.mpr ⟨note, hnote, rfl⟩)
  rw [doc.foldl_nudge steps hnodup, transpose_eq_mapNotes]
  exact mapNotes_eq_iff.mpr fun note hnote => if_pos (hall note hnote)

/-- A note close to either bound, both with accidentals, and a rest in between. -/
def outermost : Document :=
  ⟨⟨1⟩, untitled, .standard,
    [⟨⟨1⟩, .common, [⟨⟨1⟩, .pitched ⟨.B, .sharp, 5⟩, .half⟩, ⟨⟨2⟩, .rest, .half⟩]⟩,
      ⟨⟨2⟩, .common, [⟨⟨3⟩, .pitched ⟨.D, .flat, 3⟩, .whole⟩]⟩]⟩

theorem outermost_is_transposed_by_names :
    let ids : List NoteId := [⟨3⟩, ⟨1⟩, ⟨2⟩]
    outermost.noteIds.Nodup ∧ ids.Perm outermost.noteIds ∧
      ids.foldl (fun edited id => edited.nudge id 1) outermost = outermost.transpose 1 ∧
      (outermost.transpose 1).notes.map (·.kind) =
        [.pitched ⟨.C, .sharp, 6⟩, .rest, .pitched ⟨.E, .flat, 3⟩] := by
  intro ids
  have hnames : outermost.noteIds.Nodup := by decide
  have hids : ids.Perm outermost.noteIds := by decide
  exact ⟨hnames, hids, nudge_each_eq_transpose hnames 1 hids, by decide⟩

end Document

/-! ## 2. Nudges of one direction -/

/-- Two numbers of steps in one direction, and so is their sum. -/
structure SameWay (a b : Int32) : Prop where
  direction : 0 ≤ a.toInt ∧ 0 ≤ b.toInt ∨ a.toInt ≤ 0 ∧ b.toInt ≤ 0
  fits : FitsInt32 (a.toInt + b.toInt)

namespace Pitch

variable {p : Pitch} {a b steps : Int32}

theorem nudge_zero (h : p.InRange) : p.nudge 0 = p := by
  rw [inRange_iff] at h
  have hsteps : (0 : Int32).toInt = 0 := Int32.toInt_zero
  rw [nudge_of_between (by omega) (by omega), hsteps, Int.add_zero, ofDegree_degree]

theorem highest_nudge (h : 0 ≤ steps.toInt) : highest.nudge steps = highest := by
  by_cases hsteps : steps.toInt = 0
  · rw [show steps = 0 from Int32.toInt_inj.mp hsteps, nudge_zero (by decide)]
  · exact nudge_of_gt (show 42 < 42 + steps.toInt by omega)

theorem lowest_nudge (h : steps.toInt ≤ 0) : lowest.nudge steps = lowest := by
  by_cases hsteps : steps.toInt = 0
  · rw [show steps = 0 from Int32.toInt_inj.mp hsteps, nudge_zero (by decide)]
  · exact nudge_of_lt (show 21 + steps.toInt < 21 by omega)

/-- As long as the first of two nudges stays in range, only their sum matters. -/
theorem nudge_nudge_of_between (hlo : 21 ≤ p.degree + a.toInt) (hhi : p.degree + a.toInt ≤ 42)
    (hfits : FitsInt32 (a.toInt + b.toInt)) : (p.nudge a).nudge b = p.nudge (a + b) := by
  obtain ⟨hdegree, haccidental⟩ := (eq_nudge_iff hlo hhi (p.nudge a)).mp rfl
  rw [nudge_eq (p.nudge a), hdegree, haccidental, nudge_eq p, toInt_add_of_fits hfits,
    Int.add_assoc]

theorem nudge_nudge (h : p.InRange) (hab : SameWay a b) :
    (p.nudge a).nudge b = p.nudge (a + b) := by
  rw [inRange_iff] at h
  have hdirection := hab.direction
  have hsum : (a + b).toInt = a.toInt + b.toInt := toInt_add_of_fits hab.fits
  by_cases hhigh : 42 < p.degree + a.toInt
  -- the first nudge goes past C6, and so does their sum
  · rw [nudge_of_gt hhigh, highest_nudge (by omega), nudge_of_gt (by omega)]
  by_cases hlow : p.degree + a.toInt < 21
  · rw [nudge_of_lt hlow, lowest_nudge (by omega), nudge_of_lt (by omega)]
  · exact nudge_nudge_of_between (by omega) (by omega) hab.fits

end Pitch

/-! ## 3. Documents in range -/

/-- Rests are always in range, pitches from C3 to C6 whatever their accidentals. -/
def NoteKind.InRange : NoteKind → Prop
  | .pitched p => p.InRange
  | .rest => True

instance : (kind : NoteKind) → Decidable kind.InRange
  | .pitched p => inferInstanceAs (Decidable p.InRange)
  | .rest => isTrue trivial

namespace Note

variable {note : Note} {a b : Int32}

theorem moved_of_inRange (h : note.kind.InRange) (steps : Int32) :
    note.moved steps = note.nudge steps := by
  unfold moved nudge
  by_cases hsteps : steps = 0
  · rw [if_pos hsteps]
    split
    -- a nudge without steps still clamps, which a pitch in range does not feel
    next p hkind =>
      rw [hkind] at h
      rw [hsteps, Pitch.nudge_zero h, ← hkind]
    next => rfl
  · rw [if_neg hsteps]

theorem inRange_nudge (h : note.kind.InRange) (steps : Int32) :
    (note.nudge steps).kind.InRange := by
  unfold nudge
  split
  next p _ => exact p.inRange_nudge steps
  next => exact h

theorem pitch?_nudge (note : Note) (steps : Int32) :
    (note.nudge steps).kind.pitch? = note.kind.pitch?.map (·.nudge steps) := by
  obtain ⟨id, kind, duration⟩ := note
  cases kind <;> rfl

theorem moved_moved (h : note.kind.InRange) (hab : SameWay a b) :
    (note.moved a).moved b = note.moved (a + b) := by
  rw [moved_of_inRange h, moved_of_inRange (inRange_nudge h a), moved_of_inRange h]
  obtain ⟨id, kind, duration⟩ := note
  cases kind with
  | rest => rfl
  | pitched p =>
    show (⟨id, .pitched ((p.nudge a).nudge b), duration⟩ : Note) =
      ⟨id, .pitched (p.nudge (a + b)), duration⟩
    rw [Pitch.nudge_nudge h hab]

end Note

namespace Document

variable {doc : Document} {a b : Int32}

def InRange (doc : Document) : Prop :=
  ∀ note ∈ doc.notes, note.kind.InRange

instance (doc : Document) : Decidable doc.InRange :=
  inferInstanceAs (Decidable (∀ note ∈ doc.notes, note.kind.InRange))

/-- The pitch at a place, counted through all measures, unless there is a rest. -/
def pitchAt? (doc : Document) (i : Nat) : Option Pitch :=
  doc.notes[i]?.bind fun note => note.kind.pitch?

theorem notes_transpose (h : doc.InRange) (steps : Int32) :
    (doc.transpose steps).notes = doc.notes.map fun note => note.nudge steps := by
  rw [transpose_eq_mapNotes, notes_mapNotes]
  exact List.map_congr_left fun note hnote => Note.moved_of_inRange (h note hnote) steps

theorem InRange.transpose (h : doc.InRange) (steps : Int32) : (doc.transpose steps).InRange := by
  unfold InRange
  rw [notes_transpose h, List.forall_mem_map]
  exact fun note hnote => Note.inRange_nudge (h note hnote) steps

theorem pitchAt?_transpose (h : doc.InRange) (steps : Int32) (i : Nat) :
    (doc.transpose steps).pitchAt? i = (doc.pitchAt? i).map (·.nudge steps) := by
  unfold pitchAt?
  rw [notes_transpose h, List.getElem?_map]
  cases doc.notes[i]? with
  | none => rfl
  | some note => exact note.pitch?_nudge steps

theorem transpose_transpose (h : doc.InRange) (hab : SameWay a b) :
    (doc.transpose a).transpose b = doc.transpose (a + b) := by
  rw [transpose_eq_mapNotes, transpose_eq_mapNotes, transpose_eq_mapNotes, mapNotes_mapNotes]
  exact mapNotes_eq_iff.mpr fun note hnote => Note.moved_moved (h note hnote) hab

/-- Two transpositions of one direction are the one by their sum, for a document between C3 and C6.
A pitch that the first takes past a bound is at the plain bound then; one that it leaves between
them, or takes just to one, keeps its accidental.  What is at the plain bound stays there. -/
theorem transpose_adds_up (h : doc.InRange) (hdirection : 0 ≤ a ∧ 0 ≤ b ∨ a ≤ 0 ∧ b ≤ 0)
    (hfits : FitsInt32 (a.toInt + b.toInt)) :
    (doc.transpose a).transpose b = doc.transpose (a + b) ∧
      (∀ i p, doc.pitchAt? i = some p →
        (Pitch.highest.degree < p.degree + a.toInt →
            (doc.transpose a).pitchAt? i = some Pitch.highest) ∧
          (p.degree + a.toInt < Pitch.lowest.degree →
            (doc.transpose a).pitchAt? i = some Pitch.lowest) ∧
          (Pitch.lowest.degree ≤ p.degree + a.toInt → p.degree + a.toInt ≤ Pitch.highest.degree →
            ∃ q, (doc.transpose a).pitchAt? i = some q ∧ q.degree = p.degree + a.toInt ∧
              q.accidental = p.accidental)) ∧
      ∀ i,
        (0 ≤ b → (doc.transpose a).pitchAt? i = some Pitch.highest →
            ((doc.transpose a).transpose b).pitchAt? i = some Pitch.highest) ∧
          (b ≤ 0 → (doc.transpose a).pitchAt? i = some Pitch.lowest →
            ((doc.transpose a).transpose b).pitchAt? i = some Pitch.lowest) := by
  simp only [Int32.le_iff_toInt_le, Int32.toInt_zero] at hdirection ⊢
  refine ⟨transpose_transpose h ⟨hdirection, hfits⟩, ?_, ?_⟩
  · intro i p hp
    rw [pitchAt?_transpose h, hp, Option.map_some]
    refine ⟨fun hpast => ?_, fun hpast => ?_, fun hlo hhi => ?_⟩
    · rw [Pitch.nudge_of_gt hpast]
    · rw [Pitch.nudge_of_lt hpast]
    · exact ⟨p.nudge a, rfl, (Pitch.eq_nudge_iff hlo hhi (p.nudge a)).mp rfl⟩
  · intro i
    rw [pitchAt?_transpose (h.transpose a)]
    constructor
    · intro hb hhighest
      rw [hhighest, Option.map_some, Pitch.highest_nudge hb]
    · intro hb hlowest
      rw [hlowest, Option.map_some, Pitch.lowest_nudge hb]

/-- Just to C6, up past it and down past C3, each time in two goes. -/
theorem outermost_transpositions_add_up :
    outermost.InRange ∧ ((0 : Int32) ≤ 1 ∧ (0 : Int32) ≤ 1) ∧ ((0 : Int32) ≤ 2 ∧ (0 : Int32) ≤ 3) ∧
      ((-2 : Int32) ≤ 0 ∧ (-1 : Int32) ≤ 0) ∧
      (outermost.transpose 1).transpose 1 = outermost.transpose (1 + 1) ∧
      (∃ q, (outermost.transpose 1).pitchAt? 0 = some q ∧ q.degree = Pitch.highest.degree ∧
        q.accidental = .sharp) ∧
      (outermost.transpose 2).transpose 3 = outermost.transpose (2 + 3) ∧
      (outermost.transpose 2).pitchAt? 0 = some Pitch.highest ∧
      ((outermost.transpose 2).transpose 3).pitchAt? 0 = some Pitch.highest ∧
      (outermost.transpose (-2)).transpose (-1) = outermost.transpose (-2 + -1) ∧
      (outermost.transpose (-2)).pitchAt? 2 = some Pitch.lowest ∧
      ((outermost.transpose (-2)).transpose (-1)).pitchAt? 2 = some Pitch.lowest := by
  have hrange : outermost.InRange := by decide
  have hones : (0 : Int32) ≤ 1 ∧ (0 : Int32) ≤ 1 := by decide
  have hup : (0 : Int32) ≤ 2 ∧ (0 : Int32) ≤ 3 := by decide
  have hdown : (-2 : Int32) ≤ 0 ∧ (-1 : Int32) ≤ 0 := by decide
  obtain ⟨honesSum, honesPlace, -⟩ := transpose_adds_up hrange (Or.inl hones) (by decide)
  obtain ⟨hupSum, hupPlace, hupStay⟩ := transpose_adds_up hrange (Or.inl hup) (by decide)
  obtain ⟨hdownSum, hdownPlace, hdownStay⟩ := transpose_adds_up hrange (Or.inr hdown) (by decide)
  have hhit := (honesPlace 0 ⟨.B, .sharp, 5⟩ (by decide)).2.2 (by decide) (by decide)
  have hhighest := (hupPlace 0 ⟨.B, .sharp, 5⟩ (by decide)).1 (by decide)
  have hlowest := (hdownPlace 2 ⟨.D, .flat, 3⟩ (by decide)).2.1 (by decide)
  exact ⟨hrange, hones, hup, hdown, honesSum, hhit, hupSum, hhighest,
    (hupStay 0).1 hup.2 hhighest, hdownSum, hlowest, (hdownStay 2).2 hdown.2 hlowest⟩

end Document

end TextScore

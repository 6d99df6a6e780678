import Mathlib
import TextScore.Proofs.Edit.Names
import TextScore.Proofs.Session.Run

/-!
# Names — no name is ever given twice in a session

One supply serves a session for its whole life: readings and edits draw from it, and the second
reading that an edit's warnings come from draws from a supply of its own.  Whatever an operation
does, the names it leaves are those that were there and those it drew, each at most once.  From that
one fact follow the rest: names are numbered by the supply's counters, and a name that is gone is
gone for good, since what is drawn later is numbered behind it.
-/

namespace TextScore

open Notation

namespace Session

/-- The names of the notes in the session's document, if there is one. -/
def noteIds (s : Session) : List NoteId :=
  s.output.noteIds

def measureIds (s : Session) : List MeasureId :=
  s.output.measureIds

/-! ## 1. The invariant -/

/-- No name stands twice in the document, and none is beyond the supply's counter. -/
structure Named (s : Session) : Prop where
  notes : Numbered NoteId.number s.noteIds s.ids.notes
  measures : Numbered MeasureId.number s.measureIds s.ids.measures

/-- The names left by a step are those from before and those handed out in it, each at most once. -/
structure Draws (before after : Session) (notes : List NoteId) (measures : List MeasureId) :
    Prop where
  handsOut : before.ids.HandsOut notes measures after.ids
  notes : NamedFrom after.noteIds before.noteIds notes
  measures : NamedFrom after.measureIds before.measureIds measures

variable {s after : Session} {notes : List NoteId} {measures : List MeasureId}

theorem Named.of_draws (h : s.Named) (hdraws : s.Draws after notes measures) : after.Named := by
  obtain ⟨hnotes, hmeasures⟩ := hdraws.handsOut.counters
  refine ⟨?_, ?_⟩
  · rw [hnotes]
    exact h.notes.of_namedFrom hdraws.handsOut.notes_consecutive hdraws.notes
  · rw [hmeasures]
    exact h.measures.of_namedFrom hdraws.handsOut.measures_consecutive hdraws.measures

theorem Draws.of_sameNames (h : s.Named) (handsOut : s.ids.HandsOut notes measures after.ids)
    (hnotes : after.noteIds = s.noteIds) (hmeasures : after.measureIds = s.measureIds) :
    s.Draws after notes measures where
  handsOut := handsOut
  notes := ⟨hnotes ▸ h.notes.nodup, fun _ hid => Or.inl (hnotes ▸ hid)⟩
  measures := ⟨hmeasures ▸ h.measures.nodup, fun _ hid => Or.inl (hmeasures ▸ hid)⟩

/-- A step that draws nothing and keeps the document's names. -/
theorem exists_draws_of_sameNames (h : s.Named) (hids : after.ids = s.ids)
    (hnotes : after.noteIds = s.noteIds) (hmeasures : after.measureIds = s.measureIds) :
    ∃ notes measures, s.Draws after notes measures :=
  ⟨[], [], .of_sameNames h (hids ▸ .nothing s.ids) hnotes hmeasures⟩

theorem names_of_document {doc : Document} (hdoc : doc ∈ s.document?) :
    s.noteIds = doc.noteIds ∧ s.measureIds = doc.measureIds := by
  unfold noteIds measureIds ParseOutput.noteIds ParseOutput.measureIds
  rw [show s.output.document = some doc from hdoc]
  exact ⟨rfl, rfl⟩

theorem Named.of_document (h : s.Named) {doc : Document} (hdoc : doc ∈ s.document?) :
    Numbered NoteId.number doc.noteIds s.ids.notes ∧
      Numbered MeasureId.number doc.measureIds s.ids.measures := by
  obtain ⟨hnoteIds, hmeasureIds⟩ := names_of_document hdoc
  exact ⟨hnoteIds ▸ h.notes, hmeasureIds ▸ h.measures⟩

/-- Documents given another title or tempo keep their names. -/
theorem names_map_document (output : ParseOutput) {f : Document → Document}
    (hf : ∀ doc, (f doc).measures = doc.measures) :
    ({ output with document := output.document.map f }).noteIds = output.noteIds ∧
      ({ output with document := output.document.map f }).measureIds = output.measureIds := by
  unfold ParseOutput.noteIds ParseOutput.measureIds
  cases output.document with
  | none => exact ⟨rfl, rfl⟩
  | some doc =>
    show (f doc).noteIds = doc.noteIds ∧ (f doc).measureIds = doc.measureIds
    unfold Document.noteIds Document.measureIds Document.notes
    rw [hf]
    exact ⟨rfl, rfl⟩

/-! ## 2. One step -/

/-- What a reading names, it has drawn from the supply it is given. -/
theorem draws_of_read {options : ParseOptions} {text : String}
    (houtput : after.output = (parseFrom s.ids options text).1)
    (hids : after.ids = (parseFrom s.ids options text).2) :
    s.Draws after after.noteIds after.measureIds := by
  have handsOut : s.ids.HandsOut after.noteIds after.measureIds after.ids := by
    unfold noteIds measureIds
    rw [houtput, hids]
    exact parseFrom_handsOut s.ids options text
  exact ⟨handsOut, ⟨handsOut.notes_consecutive.nodup, fun _ => Or.inr⟩,
    ⟨handsOut.measures_consecutive.nodup, fun _ => Or.inr⟩⟩

theorem setText_draws (h : s.Named) (text : String) :
    ∃ notes measures, s.Draws (s.setText text) notes measures := by
  unfold setText
  split
  next => exact exists_draws_of_sameNames h rfl rfl rfl
  next => exact ⟨_, _, draws_of_read rfl rfl⟩

theorem apply_draws (h : s.Named) (edit : Edit)
    (hedit : ∀ doc ∈ s.document?, edit.NamesOnce doc s.ids) :
    ∃ notes measures, s.Draws (s.apply edit) notes measures := by
  rcases s.apply_cases edit with ⟨-, happly⟩ | ⟨doc, hdoc, happly⟩
  · rw [happly]
    exact exists_draws_of_sameNames h rfl rfl rfl
  obtain ⟨notes, measures, handsOut, hnotes, hmeasures⟩ := hedit doc hdoc
  obtain ⟨hnoteIds, hmeasureIds⟩ := names_of_document hdoc
  rcases happly with ⟨-, happly⟩ | ⟨-, happly⟩
  -- an edit without effect may have drawn names all the same
  · rw [happly]
    exact ⟨notes, measures, .of_sameNames h handsOut rfl rfl⟩
  · rw [happly]
    exact ⟨notes, measures, handsOut, hnoteIds ▸ hnotes, hmeasureIds ▸ hmeasures⟩

/-- Of an edit that comes from outside it is asked that it uses names once and draws the new ones;
all other operations do so by themselves. -/
def Operation.NamesOnce (s : Session) : Operation → Prop
  | .apply edit => ∀ doc ∈ s.document?, edit.NamesOnce doc s.ids
  | _ => True

theorem step_draws (h : s.Named) {op : Operation} (hop : op.NamesOnce s) :
    ∃ notes measures, s.Draws (s.step op) notes measures := by
  cases op with
  | setText text => exact setText_draws h text
  | setTitle title =>
    obtain ⟨hnotes, hmeasures⟩ := names_map_document s.output
      (f := fun doc => { doc with title := title }) fun _ => rfl
    exact exists_draws_of_sameNames h rfl hnotes hmeasures
  | setTempo bpm =>
    rcases step_setTempo_cases s bpm with ⟨tempo, -, hstep⟩ | ⟨-, hstep⟩
    · rw [hstep]
      obtain ⟨hnotes, hmeasures⟩ := names_map_document s.output
        (f := fun doc => { doc with tempo := tempo }) fun _ => rfl
      exact exists_draws_of_sameNames h rfl hnotes hmeasures
    · rw [hstep]
      exact exists_draws_of_sameNames h rfl rfl rfl
  | markClean => exact exists_draws_of_sameNames h rfl rfl rfl
  | appendNote kind duration =>
    rcases step_appendNote_cases s kind duration with ⟨hcan, hstep⟩ | ⟨-, hstep⟩
    · rw [hstep]
      refine apply_draws h (appendEdit kind duration) fun doc hdoc => ?_
      obtain ⟨hnotes, hmeasures⟩ := h.of_document hdoc
      have hne : doc.measures ≠ [] := (canAppend_iff_of_document hdoc).mp hcan
      exact Edit.appendEdit_namesOnce kind duration hne hnotes hmeasures.nodup
    · rw [hstep]
      exact exists_draws_of_sameNames h rfl rfl rfl
  | deleteNote id =>
    refine apply_draws h (deleteEdit id) fun doc hdoc => ?_
    obtain ⟨hnotes, hmeasures⟩ := h.of_document hdoc
    exact Edit.deleteEdit_namesOnce id hnotes.nodup hmeasures.nodup
  | nudgePitch id steps =>
    refine apply_draws h (nudgeEdit id steps) fun doc hdoc => ?_
    obtain ⟨hnotes, hmeasures⟩ := h.of_document hdoc
    exact Edit.nudgeEdit_namesOnce id steps hnotes.nodup hmeasures.nodup
  | setDuration id duration =>
    refine apply_draws h (durationEdit id duration) fun doc hdoc => ?_
    obtain ⟨hnotes, hmeasures⟩ := h.of_document hdoc
    exact Edit.durationEdit_namesOnce id duration hnotes.nodup hmeasures.nodup
  | apply edit => exact apply_draws h edit hop

theorem start_handsOut (layout : StaffStyle Float) (options : ParseOptions) (text : String) :
    IdSupply.fresh.HandsOut (start layout options text).noteIds
      (start layout options text).measureIds (start layout options text).ids :=
  parseFrom_handsOut .fresh _ text

theorem start_named (layout : StaffStyle Float) (options : ParseOptions) (text : String) :
    (start layout options text).Named := by
  have h := start_handsOut layout options text
  obtain ⟨hnotes, hmeasures⟩ := h.counters
  refine ⟨⟨h.notes_consecutive.nodup, ?_⟩, ⟨h.measures_consecutive.nodup, ?_⟩⟩
  · rw [hnotes]
    exact fun _ hid => (h.notes_consecutive.bounds hid).2
  · rw [hmeasures]
    exact fun _ hid => (h.measures_consecutive.bounds hid).2

/-! ## 3. Runs -/

/-- The names that are handed out in a run, one operation after the other. -/
inductive HandsOutAlong :
    Session → List Operation → List NoteId → List MeasureId → Prop
  | nil (s : Session) : HandsOutAlong s [] [] []
  | cons {s : Session} {op : Operation} {ops : List Operation} {notes notes' : List NoteId}
      {measures measures' : List MeasureId} :
      s.ids.HandsOut notes measures (s.step op).ids →
        HandsOutAlong (s.step op) ops notes' measures' →
        HandsOutAlong s (op :: ops) (notes ++ notes') (measures ++ measures')

theorem HandsOutAlong.handsOut {ops : List Operation} (h : s.HandsOutAlong ops notes measures) :
    s.ids.HandsOut notes measures (s.run ops).ids := by
  induction h with
  | nil s => exact .nothing s.ids
  | cons hstep _ ih => exact hstep.append ih

/-- Every admitted run hands out names, and at each moment of it the document has no others than
these and those it started with. -/
theorem exists_handsOutAlong {ops : List Operation} (h : s.Named)
    (hops : Admits (fun s op => op.NamesOnce s) s ops) :
    ∃ notes measures, s.HandsOutAlong ops notes measures ∧ ∀ n,
      (∀ id ∈ (s.run (ops.take n)).noteIds, id ∈ s.noteIds ++ notes) ∧
        ∀ id ∈ (s.run (ops.take n)).measureIds, id ∈ s.measureIds ++ measures := by
  induction ops generalizing s with
  | nil =>
    refine ⟨[], [], .nil s, fun n => ?_⟩
    rw [List.take_nil, List.append_nil, List.append_nil]
    exact ⟨fun _ => id, fun _ => id⟩
  | cons op ops ih =>
    obtain ⟨hop, hops⟩ := hops
    obtain ⟨notes, measures, hdraws⟩ := step_draws h hop
    obtain ⟨notes', measures', hrest, hmem⟩ := ih (h.of_draws hdraws) hops
    refine ⟨_, _, .cons hdraws.handsOut hrest, fun n => ?_⟩
    cases n with
    | zero => exact ⟨fun _ => List.mem_append_left _, fun _ => List.mem_append_left _⟩
    | succ n =>
      rw [List.take_succ_cons, run_cons]
      -- what the tail started with was there before the step or drawn in it
      exact ⟨fun id hid => hdraws.notes.mem_append ((hmem n).1 id hid),
        fun id hid => hdraws.measures.mem_append ((hmem n).2 id hid)⟩

theorem Named.run {ops : List Operation} (h : s.Named)
    (hops : Admits (fun s op => op.NamesOnce s) s ops) : (s.run ops).Named := by
  refine run_invariant_of_admits (fun s op hs hop => ?_) h hops
  obtain ⟨notes, measures, hdraws⟩ := step_draws hs hop
  exact hs.of_draws hdraws

/-- A note that is not in the document, under a name that the supply has passed, does not come
back. -/
structure Gone (id : NoteId) (s : Session) : Prop where
  not_mem : id ∉ s.noteIds
  le : id.number ≤ s.ids.notes

theorem Gone.run {id : NoteId} {ops : List Operation} (h : s.Named) (hid : Gone id s)
    (hops : Admits (fun s op => op.NamesOnce s) s ops) : Gone id (s.run ops) := by
  refine (run_invariant_of_admits (P := fun s => s.Named ∧ Gone id s) (fun s op hs hop => ?_)
    ⟨h, hid⟩ hops).2
  obtain ⟨hs, hid⟩ := hs
  obtain ⟨notes, measures, hdraws⟩ := step_draws hs hop
  refine ⟨hs.of_draws hdraws, ?_, ?_⟩
  · exact hdraws.notes.not_mem hdraws.handsOut.notes_consecutive hid.not_mem hid.le
  · rw [hdraws.handsOut.counters.1]
    exact Nat.le_add_right_of_le hid.le

/-- The supply after an edit is the one that the edit left: the second reading, for the warnings,
draws nothing from it. -/
theorem ids_apply (s : Session) (edit : Edit) :
    (s.apply edit).ids = s.document?.elim s.ids fun doc => (edit doc s.ids).2 := by
  rcases s.apply_cases edit with ⟨hdoc, happly⟩ | ⟨doc, hdoc, ⟨-, happly⟩ | ⟨-, happly⟩⟩
  all_goals
    rw [happly, document?, hdoc]
    rfl

/-- Over the whole life of a session, from its first reading on, names are handed out in increasing
order, and documents have no others; at every moment no name stands twice in the document or is
beyond the supply's counter; a note that has left the document never comes back; and an edit costs no
name but those it draws. -/
theorem run_never_repeats_a_name (layout : StaffStyle Float) (options : ParseOptions)
    (text : String) (ops : List Operation)
    (hops : Admits (fun s op => op.NamesOnce s) (start layout options text) ops) :
    let moment (n : Nat) := (start layout options text).run (ops.take n)
    (∃ notes measures notes' measures',
        IdSupply.fresh.HandsOut notes measures (moment 0).ids ∧
        (moment 0).HandsOutAlong ops notes' measures' ∧
        (notes ++ notes').Pairwise (fun a b => a.number < b.number) ∧
        (measures ++ measures').Pairwise (fun a b => a.number < b.number) ∧
        ∀ n, (∀ id ∈ (moment n).noteIds, id ∈ notes ++ notes') ∧
          ∀ id ∈ (moment n).measureIds, id ∈ measures ++ measures') ∧
      (∀ n, (moment n).noteIds.Nodup ∧ (moment n).measureIds.Nodup ∧
        (∀ id ∈ (moment n).noteIds, id.number ≤ (moment n).ids.notes) ∧
        ∀ id ∈ (moment n).measureIds, id.number ≤ (moment n).ids.measures) ∧
      (∀ i j k, i ≤ j → j ≤ k →
        ∀ id ∈ (moment i).noteIds, id ∉ (moment j).noteIds → id ∉ (moment k).noteIds) ∧
      ∀ (s : Session) (edit : Edit),
        (s.apply edit).ids = s.document?.elim s.ids fun doc => (edit doc s.ids).2 := by
  intro moment
  have hstart : (moment 0).Named := start_named layout options text
  have hnamed (n : Nat) : (moment n).Named := by
    obtain ⟨between, hn, hbetween⟩ := exists_between hops n.zero_le
    rw [show moment n = _ from hn]
    exact hstart.run hbetween
  refine ⟨?_, ?_, ?_, ids_apply⟩
  · obtain ⟨notes, measures, hrun, hmem⟩ := exists_handsOutAlong hstart hops
    have hall := (start_handsOut layout options text).append hrun.handsOut
    exact ⟨_, _, notes, measures, start_handsOut layout options text, hrun,
      hall.notes_consecutive.increasing, hall.measures_consecutive.increasing, hmem⟩
  · exact fun n => ⟨(hnamed n).notes.nodup, (hnamed n).measures.nodup, (hnamed n).notes.le,
      (hnamed n).measures.le⟩
  · intro i j k hij hjk id hid hnot
    obtain ⟨first, hj, hfirst⟩ := exists_between hops hij
    obtain ⟨second, hk, hsecond⟩ := exists_between hops hjk
    -- the supply has passed the note's name when it is still there, and so it has later on
    obtain ⟨notes, measures, hrun, -⟩ := exists_handsOutAlong (hnamed i) hfirst
    have hle : id.number ≤ (moment j).ids.notes := by
      rw [show moment j = _ from hj, hrun.handsOut.counters.1]
      exact Nat.le_add_right_of_le ((hnamed i).notes.le id hid)
    rw [show moment k = _ from hk]
    exact (Gone.run (hnamed j) ⟨hnot, hle⟩ hsecond).not_mem

/-- An edit that skips a name and appends a rest under the next one. -/
def skipName : Edit := fun doc ids => appendEdit .rest .half doc ids.nextNote.2

/-- A rest under the second next name, the first note gone, and another text. -/
def rewriting : List Operation :=
  [.apply skipName, .deleteNote ⟨1⟩, .setText "C4 w"]

theorem rewriting_never_repeats_a_name :
    let moment (n : Nat) := (start .standard .none "C4 q D4 q").run (rewriting.take n)
    Admits (fun s op => op.NamesOnce s) (start .standard .none "C4 q D4 q") rewriting ∧
      (moment 1).noteIds = [⟨1⟩, ⟨2⟩, ⟨4⟩] ∧
      (moment 2).noteIds = [⟨2⟩, ⟨4⟩] ∧
      (moment 3).noteIds = [⟨5⟩] ∧
      (⟨1⟩ : NoteId) ∉ (moment 3).noteIds := by
  intro moment
  have hops : Admits (fun s op => op.NamesOnce s) (start .standard .none "C4 q D4 q")
      rewriting := by
    refine ⟨fun doc hdoc => ?_, trivial, trivial, trivial⟩
    obtain rfl : _ = doc := Option.some.inj hdoc
    exact ⟨[⟨3⟩, ⟨4⟩], [], .note (.note (.nothing _)), ⟨by decide, by decide⟩,
      ⟨by decide, by decide⟩⟩
  obtain ⟨-, -, hgone, -⟩ := run_never_repeats_a_name .standard .none "C4 q D4 q" rewriting hops
  exact ⟨hops, by decide, by decide, by decide,
    hgone 1 2 3 (by decide) (by decide) ⟨1⟩ (by decide) (by decide)⟩

end Session

end TextScore

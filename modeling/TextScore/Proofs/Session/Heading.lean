import Mathlib
import TextScore.Proofs.Edit.Faithful
import TextScore.Proofs.Notation.Outline
import TextScore.Proofs.Session.Run

/-!
# Heading — the title and the tempo a session goes by

A session has a title and a tempo, and so has its document.  A reading takes those of the session,
and another title or tempo is set in both places.  An edit is given the document alone: what it
makes of title and tempo is kept there and nowhere else.  So the two agree as long as no edit
touches them, and an edit that does is not heard: the session goes on to play at its own tempo, and
the next text is read under its own title.
-/

namespace TextScore

structure Document.Headed (doc : Document) (title : String) (tempo : Tempo) : Prop where
  title : doc.title = title
  tempo : doc.tempo = tempo

theorem Document.append_headed (doc : Document) (note : Note) :
    (doc.append note).Headed doc.title doc.tempo := by
  unfold append
  split <;> exact ⟨rfl, rfl⟩

theorem Document.FaithfulTo.headed {edited doc : Document} (h : edited.FaithfulTo doc) :
    edited.Headed doc.title doc.tempo :=
  ⟨h.title, h.tempo⟩

namespace Session

open Notation

/-- The document, if there is one, has the title and the tempo of the session. -/
def Headed (s : Session) : Prop :=
  ∀ doc ∈ s.document?, doc.Headed s.title s.tempo

/-- An edit keeps title and tempo of the document it is given in the session; nothing else that can
be done to a session touches those of the document alone. -/
def Operation.KeepsHeading (s : Session) : Operation → Prop
  | .apply edit => ∀ doc ∈ s.document?, (edit doc s.ids).1.Headed doc.title doc.tempo
  | _ => True

variable {s : Session}

theorem headed_iff :
    s.Headed ↔ ∀ doc, s.output.document = some doc → doc.title = s.title ∧ doc.tempo = s.tempo := by
  constructor
  · exact fun h doc hdoc => ⟨(h doc hdoc).title, (h doc hdoc).tempo⟩
  · exact fun h doc hdoc => ⟨(h doc hdoc).1, (h doc hdoc).2⟩

/-! ## 1. Reading and setting -/

theorem headed_of_read (ids : IdSupply)
    (h : s.output = (parseFrom ids s.parseOptions s.text).1) : s.Headed := by
  intro doc hdoc
  have hread : (parseFrom ids s.parseOptions s.text).1.document = some doc := by
    rw [← h]
    exact hdoc
  obtain ⟨htitle, htempo⟩ := parseFrom_title_tempo ids s.parseOptions s.text hread
  exact ⟨htitle, htempo⟩

theorem start_headed (layout : StaffStyle Float) (options : ParseOptions) (text : String) :
    (start layout options text).Headed := by
  unfold start
  exact headed_of_read .fresh rfl

/-- Another text is read under the title and the tempo of the session, whatever those of the
document were. -/
theorem setText_headed_of_ne {text : String} (h : text ≠ s.text) : (s.setText text).Headed := by
  unfold setText
  rw [if_neg h]
  exact headed_of_read s.ids rfl

theorem setText_title_tempo (s : Session) (text : String) :
    (s.setText text).title = s.title ∧ (s.setText text).tempo = s.tempo := by
  unfold setText
  split <;> exact ⟨rfl, rfl⟩

theorem Headed.setText (h : s.Headed) (text : String) : (s.setText text).Headed := by
  by_cases htext : text = s.text
  · unfold Session.setText
    rwa [if_pos htext]
  · exact setText_headed_of_ne htext

theorem Headed.setTitle (h : s.Headed) (title : String) : (s.setTitle title).Headed := by
  intro doc hdoc
  obtain ⟨old, hold, rfl⟩ := Option.map_eq_some_iff.mp hdoc
  exact ⟨rfl, (h old hold).tempo⟩

theorem Headed.withTempo (h : s.Headed) (tempo : Tempo) : (s.withTempo tempo).Headed := by
  intro doc hdoc
  obtain ⟨old, hold, rfl⟩ := Option.map_eq_some_iff.mp hdoc
  exact ⟨(h old hold).title, rfl⟩

/-! ## 2. Edits -/

/-- An edit never touches the title and the tempo of the session. -/
theorem apply_title_tempo (s : Session) (edit : Edit) :
    (s.apply edit).title = s.title ∧ (s.apply edit).tempo = s.tempo := by
  rcases s.apply_cases edit with ⟨-, happly⟩ | ⟨doc, -, ⟨-, happly⟩ | ⟨-, happly⟩⟩
  all_goals
    rw [happly]
    exact ⟨rfl, rfl⟩

theorem apply_headed_iff (s : Session) (edit : Edit) :
    (s.apply edit).Headed ↔ ∀ doc ∈ s.document?, (edit doc s.ids).1.Headed s.title s.tempo := by
  obtain ⟨htitle, htempo⟩ := s.apply_title_tempo edit
  unfold Headed
  rw [htitle, htempo, document_apply]
  constructor
  · exact fun h doc hdoc => h _ (Option.mem_map_of_mem _ hdoc)
  · intro h edited hedited
    obtain ⟨doc, hdoc, rfl⟩ := Option.mem_map.mp hedited
    exact h doc hdoc

/-- Where the document is headed as the session is, an edit keeps it so if it keeps the heading of
the document. -/
theorem Headed.apply_iff (h : s.Headed) (edit : Edit) :
    (s.apply edit).Headed ↔
      ∀ doc ∈ s.document?, (edit doc s.ids).1.Headed doc.title doc.tempo := by
  rw [apply_headed_iff]
  apply forall₂_congr
  intro doc hdoc
  rw [(h doc hdoc).title, (h doc hdoc).tempo]

theorem Headed.apply (h : s.Headed) {edit : Edit}
    (hedit : ∀ (doc : Document) (ids : IdSupply), (edit doc ids).1.Headed doc.title doc.tempo) :
    (s.apply edit).Headed :=
  (h.apply_iff edit).mpr fun doc _ => hedit doc s.ids

/-- What is played is the document at the tempo of the session. -/
theorem schedule_of_document {doc : Document} (hdoc : s.document? = some doc)
    (hne : doc.measures ≠ []) : s.schedule = .ok (Schedule.events s.tempo.bpm doc) := by
  have hplays : TextScore.schedule doc s.tempo.bpm = .ok (Schedule.events s.tempo.bpm doc) := by
    unfold TextScore.schedule Tempo.ofBpm
    rw [dif_pos s.tempo.positive]
    rfl
  have hempty : doc.isEmpty = false := by
    unfold Document.isEmpty
    simpa using hne
  have houtput : s.output.document = some doc := hdoc
  unfold schedule
  rw [houtput]
  show (if doc.isEmpty = true then _ else _) = _
  rw [hempty, if_neg (by decide), hplays]

/-! ## 3. Runs -/

theorem Headed.step_iff (h : s.Headed) (op : Operation) :
    (s.step op).Headed ↔ op.KeepsHeading s := by
  cases op with
  | apply edit => exact h.apply_iff edit
  | setText text => exact iff_of_true (h.setText text) trivial
  | setTitle title => exact iff_of_true (h.setTitle title) trivial
  | setTempo bpm =>
    refine iff_of_true ?_ trivial
    rcases s.step_setTempo_cases bpm with ⟨tempo, -, hstep⟩ | ⟨-, hstep⟩
    · rw [hstep]
      exact h.withTempo tempo
    · rwa [hstep]
  | markClean => exact iff_of_true h trivial
  | appendNote kind duration =>
    refine iff_of_true ?_ trivial
    rcases s.step_appendNote_cases kind duration with ⟨-, hstep⟩ | ⟨-, hstep⟩
    · rw [hstep]
      exact h.apply fun doc _ => doc.append_headed _
    · rwa [hstep]
  | deleteNote id =>
    exact iff_of_true (h.apply fun doc _ => (doc.delete_faithful id).headed) trivial
  | nudgePitch id steps =>
    exact iff_of_true (h.apply fun doc _ => (doc.nudge_faithful id steps).headed) trivial
  | setDuration id duration =>
    exact iff_of_true (h.apply fun doc _ => (doc.setDuration_faithful id duration).headed) trivial

/-- The heading is right at every moment of a run exactly when each edit keeps it where it is
made. -/
theorem Headed.run_iff (h : s.Headed) (ops : List Operation) :
    (∀ count, (s.run (ops.take count)).Headed) ↔ Admits Operation.KeepsHeading s ops := by
  induction ops generalizing s with
  | nil =>
    refine iff_of_true ?_ trivial
    intro count
    rwa [List.take_nil, run_nil]
  | cons op ops ih =>
    constructor
    · intro hall
      -- the step itself is seen after one operation, the rest of the run behind it
      have hstep : (s.step op).Headed := hall 1
      refine ⟨(h.step_iff op).mp hstep, (ih hstep).mp fun count => ?_⟩
      exact hall (count + 1)
    · rintro ⟨hop, hops⟩ count
      have hstep : (s.step op).Headed := (h.step_iff op).mpr hop
      cases count with
      | zero => exact h
      | succ count => exact (ih hstep).mpr hops count

/-- Document and session have one title and one tempo at every moment of a run exactly when every
edit that is applied keeps title and tempo of the document it is given.  After any edit they have
exactly when the edited document has those of the session, for the edit does not reach the session's
own: at these the document is played, and under these the next text is read. -/
theorem run_headed_iff_edits_keep (layout : StaffStyle Float) (options : ParseOptions)
    (text : String) (ops : List Operation) :
    ((∀ count, ((start layout options text).run (ops.take count)).Headed) ↔
        Admits Operation.KeepsHeading (start layout options text) ops) ∧
      ∀ edit : Edit,
        let s := (start layout options text).run ops
        let after := s.apply edit
        after.document? = (s.document?.map fun doc => (edit doc s.ids).1) ∧
          (after.Headed ↔ ∀ doc ∈ s.document?, (edit doc s.ids).1.Headed s.title s.tempo) ∧
          (∀ doc, after.document? = some doc → doc.measures ≠ [] →
            after.schedule = .ok (Schedule.events s.tempo.bpm doc)) ∧
          ∀ next, next ≠ after.text →
            ∀ doc ∈ (after.setText next).document?, doc.Headed s.title s.tempo := by
  refine ⟨(start_headed layout options text).run_iff ops, ?_⟩
  intro edit s after
  obtain ⟨htitle, htempo⟩ := s.apply_title_tempo edit
  refine ⟨s.document_apply edit, s.apply_headed_iff edit, ?_, ?_⟩
  · intro doc hdoc hne
    rw [schedule_of_document hdoc hne, htempo]
  · intro next hnext doc hdoc
    have hheaded := setText_headed_of_ne hnext doc hdoc
    rwa [(after.setText_title_tempo next).1, (after.setText_title_tempo next).2, htitle, htempo]
      at hheaded

/-- An edit of the heading: another title, and half the tempo. -/
def calmer : Edit := fun doc ids =>
  ({ doc with title := "Lullaby", tempo := ⟨60, by decide⟩ }, ids)

/-- The document says another title and half the tempo, but the session plays on as before, and
another text is untitled again. -/
theorem calmer_is_not_heard :
    let s := start .standard .none "C4 w"
    let after := s.apply calmer
    (∃ doc, after.document? = some doc ∧ doc.title = "Lullaby" ∧ doc.tempo.bpm = 60 ∧
        after.schedule = .ok (Schedule.events 120 doc)) ∧
      after.title = "Untitled" ∧ after.tempo.bpm = 120 ∧ ¬after.Headed ∧
      ∃ doc, (after.setText "D4 w").document? = some doc ∧ doc.title = "Untitled" ∧
        doc.tempo.bpm = 120 := by
  intro s after
  obtain ⟨-, hedit⟩ := run_headed_iff_edits_keep .standard .none "C4 w" []
  obtain ⟨hdocument, hheaded, hschedule, hnext⟩ := hedit calmer
  obtain ⟨old, hold⟩ : ∃ old, s.document? = some old :=
    Option.isSome_iff_exists.mp (by decide)
  obtain ⟨new, hnew⟩ : ∃ new, (after.setText "D4 w").document? = some new :=
    Option.isSome_iff_exists.mp (by decide)
  have hafter : after.document? = some (calmer old s.ids).1 :=
    hdocument.trans (congrArg (Option.map fun doc => (calmer doc s.ids).1) hold)
  have hmeasures : (calmer old s.ids).1.measures ≠ [] := by
    have hall : ∀ doc ∈ after.document?, doc.measures ≠ [] := by decide
    exact hall _ hafter
  have hnewHeaded := hnext "D4 w" (by decide) new hnew
  refine ⟨⟨_, hafter, rfl, rfl, hschedule _ hafter hmeasures⟩, by decide, by decide, ?_, new, hnew,
    hnewHeaded.title, ?_⟩
  · intro h
    have htitle : "Lullaby" = "Untitled" := (hheaded.mp h old hold).title
    exact absurd htitle (by decide)
  · rw [hnewHeaded.tempo]
    decide

end Session

end TextScore

import Mathlib
import TextScore.Proofs.Session.Run

/-!
# Clean — what a session that is not dirty vouches for

Only marking a session clean lowers its flag.  Every other operation either raises it or has drawn
identifiers at most: a text set to what it was, a tempo that is refused, an edit without a document
or without effect.  So a session whose flag is down is the one that was last marked, but for its
supply of identifiers.
-/

namespace TextScore.Session

/-! ## 1. One step -/

/-- All that can be seen of the session is as it was in `base`. -/
def KeepsTo (base s : Session) : Prop :=
  s = { base with ids := s.ids }

theorem KeepsTo.refl (s : Session) : s.KeepsTo s := rfl

/-- Changes that raise no flag are told apart by the supply alone. -/
theorem KeepsTo.trans {base s after : Session} (h : base.KeepsTo s) (hafter : s.KeepsTo after) :
    base.KeepsTo after := by
  unfold KeepsTo at *
  rw [hafter, h]

theorem setText_dirty_or (s : Session) (text : String) :
    (s.setText text).dirty = true ∨ s.KeepsTo (s.setText text) := by
  unfold setText
  by_cases h : text = s.text
  · rw [if_pos h]
    exact Or.inr (KeepsTo.refl s)
  · rw [if_neg h]
    exact Or.inl rfl

theorem apply_dirty_or (s : Session) (edit : Edit) :
    (s.apply edit).dirty = true ∨ s.KeepsTo (s.apply edit) := by
  rcases s.apply_cases edit with ⟨-, happly⟩ | ⟨doc, -, ⟨-, happly⟩ | ⟨-, happly⟩⟩
  · right
    rw [happly]
    exact KeepsTo.refl s
  -- an edit without effect may have drawn identifiers
  · right
    rw [happly]
    rfl
  · left
    rw [happly]
    rfl

theorem step_dirty_or (s : Session) {op : Operation} (hop : op ≠ .markClean) :
    (s.step op).dirty = true ∨ s.KeepsTo (s.step op) := by
  cases op with
  | setText text => exact s.setText_dirty_or text
  | setTitle title => exact Or.inl rfl
  | setTempo bpm =>
    rcases s.step_setTempo_cases bpm with ⟨tempo, -, hstep⟩ | ⟨-, hstep⟩
    · rw [hstep]
      exact Or.inl rfl
    · rw [hstep]
      exact Or.inr (KeepsTo.refl s)
  | markClean => exact absurd rfl hop
  | appendNote kind duration =>
    rcases s.step_appendNote_cases kind duration with ⟨-, hstep⟩ | ⟨-, hstep⟩
    · rw [hstep]
      exact s.apply_dirty_or (appendEdit kind duration)
    · rw [hstep]
      exact Or.inr (KeepsTo.refl s)
  | deleteNote id => exact s.apply_dirty_or (deleteEdit id)
  | nudgePitch id steps => exact s.apply_dirty_or (nudgeEdit id steps)
  | setDuration id duration => exact s.apply_dirty_or (durationEdit id duration)
  | apply edit => exact s.apply_dirty_or edit

/-! ## 2. Runs between marks -/

/-- Once the flag is up, only a mark lowers it; until then nothing that is seen has changed. -/
theorem run_dirty_or (base : Session) {ops : List Operation} (hops : ∀ op ∈ ops, op ≠ .markClean) :
    (base.run ops).dirty = true ∨ base.KeepsTo (base.run ops) := by
  refine run_invariant (P := fun s => s.dirty = true ∨ base.KeepsTo s) ?_
    (Or.inr (KeepsTo.refl base)) hops
  intro s op hs hop
  rcases s.step_dirty_or hop with hdirty | hkeeps
  · exact Or.inl hdirty
  rcases hs with hdirty | hbase
  -- a step that keeps all that is seen keeps the flag, too
  · left
    rw [hkeeps]
    exact hdirty
  · exact Or.inr (hbase.trans hkeeps)

/-- Nothing was done, or the last thing that was done is a mark. -/
def EndsInMark (ops : List Operation) : Prop :=
  ops = [] ∨ ∃ front, ops = front ++ [.markClean]

/-- A session is clean when it starts and when it is marked. -/
theorem dirty_run_of_endsInMark (layout : StaffStyle Float) (options : ParseOptions)
    (text : String) {ops : List Operation} (h : EndsInMark ops) :
    ((start layout options text).run ops).dirty = false := by
  rcases h with rfl | ⟨front, rfl⟩
  · rfl
  · rw [run_append]
    rfl

/-- Every run has a last mark, unless it has none at all. -/
theorem exists_last_mark (ops : List Operation) :
    ∃ earlier later, ops = earlier ++ later ∧ EndsInMark earlier ∧
      ∀ op ∈ later, op ≠ .markClean := by
  induction ops using List.reverseRecOn with
  | nil => exact ⟨[], [], rfl, Or.inl rfl, fun op hop => by cases hop⟩
  | append_singleton front last ih =>
    by_cases hlast : last = .markClean
    · refine ⟨front ++ [last], [], (List.append_nil _).symm, Or.inr ⟨front, ?_⟩, ?_⟩
      · rw [hlast]
      · intro op hop
        cases hop
    · obtain ⟨earlier, later, hfront, hearlier, hlater⟩ := ih
      refine ⟨earlier, later ++ [last], ?_, hearlier, ?_⟩
      · rw [hfront, List.append_assoc]
      · intro op hop
        rcases List.mem_append.mp hop with hop | hop
        · exact hlater op hop
        · rw [List.mem_singleton.mp hop]
          exact hlast

/-- However a session is run, there is a moment at which it was last marked clean, or its start if
it was never marked.  It is clean then, and as long as it is not dirty, its text, title, tempo and
document are what they were then.  A tempo that is refused leaves all of the session as it is. -/
theorem run_clean_as_marked (layout : StaffStyle Float) (options : ParseOptions) (text : String)
    (ops : List Operation) :
    (∃ earlier later, ops = earlier ++ later ∧ EndsInMark earlier ∧
        (∀ op ∈ later, op ≠ .markClean) ∧
        let marked := (start layout options text).run earlier
        let s := (start layout options text).run ops
        marked.dirty = false ∧
          (s.dirty = false →
            s.text = marked.text ∧ s.title = marked.title ∧ s.tempo = marked.tempo ∧
              s.document? = marked.document?)) ∧
      ∀ (s : Session) (bpm : Float) (error : ScoreError), (s.setTempo bpm).1 = .error error →
        s.step (.setTempo bpm) = s := by
  constructor
  · obtain ⟨earlier, later, rfl, hearlier, hlater⟩ := exists_last_mark ops
    refine ⟨earlier, later, rfl, hearlier, hlater, ?_⟩
    intro marked s
    refine ⟨dirty_run_of_endsInMark layout options text hearlier, ?_⟩
    intro hclean
    have hrun : s = marked.run later := run_append (start layout options text) earlier later
    rcases marked.run_dirty_or hlater with hdirty | hkeeps
    · rw [← hrun, hclean] at hdirty
      cases hdirty
    · rw [← hrun] at hkeeps
      unfold KeepsTo at hkeeps
      rw [hkeeps]
      exact ⟨rfl, rfl, rfl, rfl⟩
  · intro s bpm error herror
    show (s.setTempo bpm).2 = s
    unfold setTempo at herror ⊢
    split at herror
    · rfl
    · cases herror

/-- A new title under a mark, and then only what comes to nothing: a note that is not there, names
drawn in vain, the same text, a tempo of zero. -/
def idle : List Operation :=
  [.setTitle "Waltz", .markClean, .deleteNote ⟨9⟩, .apply fun doc ids => (doc, ids.nextNote.2),
    .setText "C4 q Z9", .setTempo 0]

theorem idle_clean_as_marked :
    let s := (start .standard .none "C4 q Z9").run idle
    s.dirty = false ∧ s.title = "Waltz" ∧ s.text = "C4 q Z9" ∧ s.ids.notes = 2 ∧
      (∃ earlier later, idle = earlier ++ later ∧ EndsInMark earlier ∧
        (∀ op ∈ later, op ≠ .markClean) ∧
        s.document? = ((start .standard .none "C4 q Z9").run earlier).document?) ∧
      s.step (.setTempo 0) = s := by
  intro s
  obtain ⟨⟨earlier, later, hidle, hearlier, hlater, -, hmarked⟩, htempo⟩ :=
    run_clean_as_marked .standard .none "C4 q Z9" idle
  have hclean : s.dirty = false := by decide
  obtain ⟨-, -, -, hdocument⟩ := hmarked hclean
  exact ⟨hclean, by decide, by decide, by decide,
    ⟨earlier, later, hidle, hearlier, hlater, hdocument⟩, htempo s 0 (.invalidTempo 0) rfl⟩

end TextScore.Session

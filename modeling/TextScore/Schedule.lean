import TextScore.Document
import TextScore.Error
import TextScore.Pitch.Nudge

/-!
# Schedule — when each note sounds

A schedule runs through the notes of a document on one clock that bar lines never reset.  A rest has
an event too, without a pitch: the position can be shown although nothing sounds.
-/

namespace TextScore

structure Event (α : Type) where
  timeSeconds : α
  durationSeconds : α
  pitch : Option Pitch
  noteId : NoteId
  isRest : Bool
  deriving DecidableEq

namespace Event

def endSeconds {α : Type} [Scalar α] (e : Event α) : α :=
  e.timeSeconds + e.durationSeconds

def midiNumber? {α : Type} (e : Event α) : Option Nat :=
  e.pitch.map Pitch.midiNumber

end Event

namespace Schedule

variable {α : Type} [Scalar α]

/-- Events for the notes of a measure that starts `position` beats into the document. -/
def eventsFrom (secondsPerBeat position : α) : List Note → List (Event α)
  | [] => []
  | note :: rest =>
    let beats : α := note.duration.beats
    { timeSeconds := position * secondsPerBeat
      durationSeconds := beats * secondsPerBeat
      pitch := note.kind.pitch?
      noteId := note.id
      isRest := note.kind = .rest } :: eventsFrom secondsPerBeat (position + beats) rest

/-- The position behind the notes of a measure. -/
def positionAfter (position : α) (notes : List Note) : α :=
  notes.foldl (fun position note => position + note.duration.beats) position

/-- Events for measures that start `position` beats into the document: each takes over the position
that the one before it leaves. -/
def eventsAcross (secondsPerBeat position : α) : List Measure → List (Event α)
  | [] => []
  | m :: rest => eventsFrom secondsPerBeat position m.notes ++
      eventsAcross secondsPerBeat (positionAfter position m.notes) rest

def events (bpm : α) (doc : Document) : List (Event α) :=
  eventsAcross (secondsPerBeat bpm) (Scalar.ofNat 0) doc.measures

def totalDuration (events : List (Event α)) : α :=
  match events.getLast? with
  | some last => last.endSeconds
  | none => Scalar.ofNat 0

/-! ## The note under the cursor -/

/-- Halves the indices `[base, base + size)` until one is left, keeping in the right half whenever
its first index satisfies `p`. -/
def bisect (p : Nat → Bool) (base size : Nat) : Nat :=
  if 1 < size then
    let half := size / 2
    bisect p (if p (base + half) then base + half else base) (size - half)
  else if size = 1 ∧ p base then base + 1
  else base
termination_by size

/-- How many events have started by a time; the events are searched as if in the order of time. -/
def startedBy (events : List (Event Float)) (time : Float) : Nat :=
  bisect (fun i => (events[i]?).any fun e => e.timeSeconds ≤ time) 0 events.length

/-- The note at a time, rests included: that of the last event started, unless it has ended. -/
def activeNote? (events : List (Event Float)) (time : Float) : Option NoteId :=
  if time < 0 then none
  else
    match startedBy events time with
    | 0 => none
    | count + 1 =>
      events[count]?.bind fun e => if time < e.endSeconds then some e.noteId else none

end Schedule

def schedule (doc : Document) (bpm : Float) : Except ScoreError (List (Event Float)) :=
  (Tempo.ofBpm bpm).map fun tempo => Schedule.events tempo.bpm doc

def Document.schedule (doc : Document) : List (Event Float) :=
  Schedule.events doc.tempo.bpm doc

def eventsJournal (doc : Document) (bpm : Float) : Journal :=
  let count := (Schedule.events bpm doc).length
  let beats : Float :=
    doc.measures.foldl (fun position m => Schedule.positionAfter position m.notes) 0.0
  [⟨.debug, s!"scheduled {count} events over {Decimal.inMessage beats} beats at " ++
    s!"{Decimal.inMessage bpm} bpm"⟩]

/-- A tempo that cannot be played is remarked on and nothing is scheduled. -/
def scheduleJournal (doc : Document) (bpm : Float) : Journal :=
  match Tempo.ofBpm bpm with
  | .ok tempo => eventsJournal doc tempo.bpm
  | .error _ => [⟨.warn, s!"refusing to schedule at tempo {Decimal.inMessage bpm}"⟩]

end TextScore

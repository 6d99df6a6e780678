import TextScore.Pitch.Basic

/-!
# Nudge — moving a pitch along the scale

Moving by steps walks the letters C D E F G A B and carries into the octave; the accidental stays.
A nudge then brings the pitch back between C3 and C6.  Both look at the diatonic degree alone, seven
to the octave, so an accidental never decides.

Degrees and MIDI numbers are worked out in words of 64 bits, in which any octave of 32 bits leaves
room for any step.
-/

namespace TextScore.Pitch

def lowest : Pitch := ⟨.C, .natural, 3⟩

def highest : Pitch := ⟨.C, .natural, 6⟩

/-- The place on the endless scale of letters, counted from C0. -/
def degree (p : Pitch) : Int :=
  p.octave.toInt * 7 + p.letter.index

/-- The degree as it is worked out in a word. -/
def wordDegree (p : Pitch) : Int64 :=
  p.octave.toInt64 * 7 + Int64.ofNat p.letter.index

/-- The octave of a degree.  Division of words rounds towards zero, so below zero it is one octave
too high wherever it leaves a remainder. -/
def octaveOf (degree : Int64) : Int64 :=
  if degree % 7 < 0 then degree / 7 - 1 else degree / 7

/-- The place of a degree in its octave, from 0 to 6. -/
def placeOf (degree : Int64) : Int64 :=
  if degree % 7 < 0 then degree % 7 + 7 else degree % 7

/-- The nearest octave a pitch can hold. -/
def saturateOctave (octave : Int) : Int32 :=
  Int32.ofInt (max (-2147483648) (min 2147483647 octave))

/-- The pitch `steps` letters away; the octave stops at the ends of its range. -/
def step (p : Pitch) (steps : Int32) : Pitch :=
  if steps = 0 then p
  else
    let target := p.wordDegree + steps.toInt64
    ⟨Letter.ofIndex (placeOf target).toInt, p.accidental, saturateOctave (octaveOf target).toInt⟩

/-- A pitch outside the nudging range becomes the plain bound it has passed. -/
def clamp (p : Pitch) : Pitch :=
  if p.wordDegree < lowest.wordDegree then lowest
  else if highest.wordDegree < p.wordDegree then highest
  else p

/-- What one keystroke does: step, then clamp. -/
def nudge (p : Pitch) (steps : Int32) : Pitch :=
  (p.step steps).clamp

/-- Stepping on tokens.  What is no pitch, or does not move, stays as it was written. -/
def stepToken (text : String) (steps : Int32) : String :=
  match ofToken? text.toList with
  | some p => if steps = 0 then text else (p.step steps).name
  | none => text

/-- Clamping on tokens.  A token whose pitch is in range stays as it was written. -/
def clampToken (text : String) : String :=
  match ofToken? text.toList with
  | some p => if p.clamp = p then text else p.clamp.name
  | none => text

/-- The MIDI note number before it is brought between the ends of the keyboard, 60 for C4. -/
def wordNumber (p : Pitch) : Int64 :=
  (p.octave.toInt64 + 1) * 12 + Int64.ofNat p.letter.semitone + Int64.ofInt p.accidental.offset

/-- A word brought between the ends of the keyboard. -/
def clampWord (word : Int64) : Int64 :=
  if word < 0 then 0 else if 127 < word then 127 else word

/-- The MIDI note number, kept between 0 and 127 and cut down to a byte. -/
def midiNumber (p : Pitch) : Nat :=
  (clampWord p.wordNumber).toUInt64.toUInt8.toNat

end TextScore.Pitch

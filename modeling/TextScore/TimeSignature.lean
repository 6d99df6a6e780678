import TextScore.Scalar

/-!
# TimeSignature — how much a measure holds

A signature such as 6/8 names a number of beats and the note value that is one beat.  A signature
read from a text has both parts positive; one built by hand need not.
-/

namespace TextScore

structure TimeSignature where
  beats : UInt32
  beatType : UInt32
  deriving DecidableEq, Repr

namespace TimeSignature

/-- Four quarter notes, the signature of a measure that names none. -/
def common : TimeSignature := ⟨4, 4⟩

def ofParts? (beats beatType : UInt32) : Option TimeSignature :=
  if beats = 0 ∨ beatType = 0 then none else some ⟨beats, beatType⟩

def chars (ts : TimeSignature) : List Char :=
  Nat.toDigits 10 ts.beats.toNat ++ '/' :: Nat.toDigits 10 ts.beatType.toNat

def name (ts : TimeSignature) : String :=
  String.ofList ts.chars

variable {α : Type} [Scalar α]

/-- The quarter notes that fill one measure: 3 for 6/8. -/
def capacity (ts : TimeSignature) : α :=
  Scalar.ofNat ts.beats.toNat * Scalar.ofNat 4 / Scalar.ofNat ts.beatType.toNat

/-- Quarter notes counted in beats of this signature. -/
def ownBeats (ts : TimeSignature) (quarters : α) : α :=
  quarters * Scalar.ofNat ts.beatType.toNat / Scalar.ofNat 4

end TimeSignature

end TextScore

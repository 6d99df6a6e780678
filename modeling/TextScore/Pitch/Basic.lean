/-!
# Pitch — letters, accidentals and octaves

A pitch is a letter of the natural scale, an accidental that is kept as it was written, and an
octave.  Octaves are 32-bit numbers; texts hold only the octaves 0 to 9, but a pitch built by hand
may lie anywhere.

The written form of a pitch is a token: a letter in either case, at most one accidental, and one
digit for the octave.  Printing writes the letter in upper case and the octave in full.
-/

namespace TextScore

inductive Letter where
  | C | D | E | F | G | A | B
  deriving DecidableEq, Repr, Inhabited

namespace Letter

/-- The place in the scale, from 0 for C to 6 for B. -/
def index : Letter → Nat
  | C => 0 | D => 1 | E => 2 | F => 3 | G => 4 | A => 5 | B => 6

/-- The letter at a place of the scale, which repeats every seven places. -/
def ofIndex (i : Int) : Letter :=
  match (i % 7).toNat with
  | 0 => C | 1 => D | 2 => E | 3 => F | 4 => G | 5 => A | _ => B

/-- Letters are read in either case. -/
def ofChar? : Char → Option Letter
  | 'C' | 'c' => some C
  | 'D' | 'd' => some D
  | 'E' | 'e' => some E
  | 'F' | 'f' => some F
  | 'G' | 'g' => some G
  | 'A' | 'a' => some A
  | 'B' | 'b' => some B
  | _ => none

def toChar : Letter → Char
  | C => 'C' | D => 'D' | E => 'E' | F => 'F' | G => 'G' | A => 'A' | B => 'B'

def semitone : Letter → Nat
  | C => 0 | D => 2 | E => 4 | F => 5 | G => 7 | A => 9 | B => 11

end Letter

inductive Accidental where
  | natural | sharp | flat
  deriving DecidableEq, Repr, Inhabited

namespace Accidental

def symbol : Accidental → List Char
  | natural => []
  | sharp => ['#']
  | flat => ['b']

def offset : Accidental → Int
  | natural => 0
  | sharp => 1
  | flat => -1

end Accidental

structure Pitch where
  letter : Letter
  accidental : Accidental
  octave : Int32
  deriving DecidableEq, Repr

namespace Pitch

def octaveOfDigit? (c : Char) : Option Int32 :=
  if c.isDigit then some (Int32.ofNat (c.toNat - '0'.toNat)) else none

/-- A letter and an octave around an accidental that has been read. -/
def assemble? (letter : Char) (accidental : Accidental) (octave : Char) : Option Pitch :=
  (Letter.ofChar? letter).bind fun l => (octaveOfDigit? octave).map fun o => ⟨l, accidental, o⟩

def ofToken? : List Char → Option Pitch
  | [letter, octave] => assemble? letter .natural octave
  | [letter, '#', octave] => assemble? letter .sharp octave
  | [letter, 'b', octave] => assemble? letter .flat octave
  | _ => none

/-- Decimal digits with a minus sign below zero. -/
def octaveChars (octave : Int) : List Char :=
  if octave < 0 then '-' :: Nat.toDigits 10 octave.natAbs else Nat.toDigits 10 octave.natAbs

def token (p : Pitch) : List Char :=
  p.letter.toChar :: (p.accidental.symbol ++ octaveChars p.octave.toInt)

def name (p : Pitch) : String :=
  String.ofList p.token

end Pitch

end TextScore

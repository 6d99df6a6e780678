import TextScore.Document
import TextScore.Notation.Diagnostic
import TextScore.Text

/-!
# Line — reading one measure

A line is cut into maximal runs of visible characters, the tokens, each with the column of its first
character.  It is an optional signature before the first bar, and pairs of a symbol and a duration.
Reading never stops at a fault: a malformed signature counts as 4/4, a token without a partner and
a pair with a bad half are reported and left out, and everything else is kept.
-/

namespace TextScore.Notation

open TextScore.Text

/-! ## 1. Tokens -/

structure Token where
  chars : List Char
  column : Nat
  deriving DecidableEq, Repr

/-- The tokens of a text whose first character stands in `column`.  A visible character joins the
token behind it, if one follows directly, and else is a token of its own. -/
def tokens (column : Nat) : List Char → List Token
  | [] => []
  | c :: rest =>
    let later := tokens (column + 1) rest
    if isBlank c then later
    else match rest, later with
      | next :: _, token :: others =>
        if isBlank next then ⟨[c], column⟩ :: later else ⟨c :: token.chars, column⟩ :: others
      | _, _ => ⟨[c], column⟩ :: later

/-! ## 2. The signature -/

structure LocatedFault where
  column : Nat
  fault : Fault
  deriving DecidableEq, Repr

structure LineReading where
  signature : TimeSignature
  /-- The fault of the text before the bar. -/
  signatureFault : Option LocatedFault
  tokenCount : Nat
  /-- The faults behind the bar: a token without a partner comes first, then the pairs. -/
  bodyFaults : List LocatedFault
  notes : List (NoteKind × Duration)
  deriving DecidableEq, Repr

/-- The text before the first `separator` and the text behind it. -/
def splitAtFirst? (separator : Char) (cs : List Char) : Option (List Char × List Char) :=
  if separator ∈ cs then
    some (cs.takeWhile (· != separator), (cs.dropWhile (· != separator)).tail)
  else none

/-- A run of ASCII digits whose value is positive and fits 32 bits. -/
def positive? (cs : List Char) : Option UInt32 :=
  if cs ≠ [] ∧ cs.all Char.isDigit then
    let value := Nat.ofDigitChars 10 cs 0
    if 0 < value ∧ value < UInt32.size then some (UInt32.ofNat value) else none
  else none

/-- Two positive numbers around the first slash, blanks allowed around either. -/
def readSignature? (text : List Char) : Option TimeSignature :=
  (splitAtFirst? '/' (trim text)).bind fun (beats, beatType) =>
    (positive? (trim beats)).bind fun b =>
      (positive? (trim beatType)).bind fun t => TimeSignature.ofParts? b t

/-- The column of the first visible character, or 1 when there is none. -/
def visibleColumn (text : List Char) : Nat :=
  if allBlank text then 1 else (text.takeWhile isBlank).length + 1

/-- The signature before a bar, or 4/4 and a fault. -/
def readPrefix (text : List Char) : TimeSignature × Option LocatedFault :=
  match readSignature? text with
  | some signature => (signature, none)
  | none => (.common, some ⟨visibleColumn text, .malformedTimeSignature (trim text)⟩)

/-! ## 3. The pairs -/

/-- A pitch, or a rest in either case. -/
def readSymbol? (cs : List Char) : Option NoteKind :=
  if cs = ['R'] ∨ cs = ['r'] then some .rest else (Pitch.ofToken? cs).map .pitched

/-- A pair is a note, or one fault that names its first bad half. -/
def readPair (symbol duration : Token) : Except LocatedFault (NoteKind × Duration) :=
  match readSymbol? symbol.chars, Duration.ofCode? duration.chars with
  | some kind, some length => .ok (kind, length)
  | none, some _ => .error ⟨symbol.column, .invalidPitch symbol.chars none⟩
  | none, none => .error ⟨symbol.column, .invalidPitch symbol.chars (some duration.chars)⟩
  | some _, none => .error ⟨duration.column, .invalidDuration duration.chars symbol.chars⟩

/-- Each pair read on its own; a last token without a partner is left out. -/
def readPairs : List Token → List (Except LocatedFault (NoteKind × Duration))
  | symbol :: duration :: rest => readPair symbol duration :: readPairs rest
  | _ => []

/-- The fault of an odd number of tokens. -/
def dangling? (words : List Token) : Option LocatedFault :=
  if words.length % 2 = 0 then none
  else words.getLast?.map fun token => ⟨token.column, .danglingToken token.chars⟩

def notesOf (pairs : List (Except LocatedFault (NoteKind × Duration))) :
    List (NoteKind × Duration) :=
  pairs.filterMap fun
    | .ok note => some note
    | .error _ => none

def faultsOf (pairs : List (Except LocatedFault (NoteKind × Duration))) : List LocatedFault :=
  pairs.filterMap fun
    | .ok _ => none
    | .error fault => some fault

/-! ## 4. The line -/

/-- A signature and the body behind it, which starts in `column`. -/
def readBody (signature : TimeSignature × Option LocatedFault) (column : Nat)
    (body : List Char) : LineReading :=
  let words := tokens column body
  let pairs := readPairs words
  { signature := signature.1
    signatureFault := signature.2
    tokenCount := words.length
    bodyFaults := (dangling? words).toList ++ faultsOf pairs
    notes := notesOf pairs }

def readLine (line : List Char) : LineReading :=
  match splitAtFirst? '|' line with
  | some (before, behind) => readBody (readPrefix before) (before.length + 2) behind
  | none => readBody (.common, none) 1 line

def LineReading.faults (reading : LineReading) : List LocatedFault :=
  reading.signatureFault.toList ++ reading.bodyFaults

end TextScore.Notation

import TextScore.Json.Read

/-!
# Number — what a JSON numeral is worth

A reader of numbers gathers digits in a 64-bit word.  Whole digits that no longer fit only count as
powers of ten, and fraction digits from the first one that does not fit are passed over.  The word
becomes a double and is then multiplied or divided by a power of ten, so that the result may differ
in its last bit from the number that is written.
-/

namespace TextScore.Json

open Decimal

def wordMax : Nat := UInt64.size - 1

/-- Digits gathered behind a word until one no longer fits, and the digits left over. -/
def gather (word : Nat) : List Char → Nat × List Char
  | [] => (word, [])
  | c :: rest =>
    let next := word * 10 + (c.toNat - '0'.toNat)
    if wordMax < next then (word, c :: rest) else gather next rest

/-- The power of ten nearest to its exact value; the largest that is used is `10 ^ 308`. -/
def powerOfTen (n : Nat) : Float :=
  Float.ofScientific 1 false n

/-- A word scaled by a power of ten.  Very small powers are taken in steps of `10 ^ -308`, of which
three bring any word to zero; a number too large for a double is refused. -/
def scale? (steps : Nat) (x : Float) (exponent : Int) : Option Float :=
  if exponent.natAbs ≤ 308 then
    if 0 ≤ exponent then
      let y := x * powerOfTen exponent.natAbs
      if y.isFinite then some y else none
    else some (x / powerOfTen exponent.natAbs)
  else if x == 0.0 then some x
  else if 0 ≤ exponent then none
  else match steps with
    | 0 => some 0.0
    | steps + 1 => scale? steps (x / powerOfTen 308) (exponent + 308)

def exponentMax : Nat := 2147483647

/-- The double that a numeral is read as. -/
def numeralValue? (n : Numeral) : Option Float :=
  let (word, left) := gather 0 n.whole
  let fraction := n.fraction.getD []
  let (word, passed) := gather word fraction
  let taken := fraction.length - passed.length
  let exponent : Int := (left.length : Int) - taken
  let size := match n.exponent with
    | none => scale? 3 (Float.ofNat word) exponent
    | some (negative, digits) =>
      let shift := Nat.ofDigitChars 10 digits 0
      if exponentMax < shift then
        if word = 0 ∨ negative then some 0.0 else none
      else scale? 3 (Float.ofNat word) (if negative then exponent - shift else exponent + shift)
  size.map fun x => if n.negative then -x else x

def toFloat? : Json → Option Float
  | .number numeral => (scanNumber? numeral).bind fun scanned => numeralValue? scanned.1
  | _ => none

/-- A natural number that fits 32 bits, written as digits alone. -/
def toUInt32? : Json → Option UInt32
  | .number numeral =>
    let value := Nat.ofDigitChars 10 numeral 0
    if numeral.all Char.isDigit ∧ value < UInt32.size then some (UInt32.ofNat value) else none
  | _ => none

end TextScore.Json

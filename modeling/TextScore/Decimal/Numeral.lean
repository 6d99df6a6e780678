/-!
# Numeral — the parts of a written number

A numeral is a sign, whole digits, a fraction and an exponent, each as it is written.  Its value is
the double nearest to the number it denotes.  Formats differ in which parts they let a writer leave
out; they all scan numerals with `scanUnsigned?` and judge the parts on their own.
-/

namespace TextScore.Decimal

structure Numeral where
  negative : Bool
  whole : List Char
  /-- The digits behind the point, if there is a point. -/
  fraction : Option (List Char)
  /-- Whether the exponent is negative, and its digits. -/
  exponent : Option (Bool × List Char)
  deriving DecidableEq, Repr

def takeDigits (cs : List Char) : List Char × List Char :=
  (cs.takeWhile Char.isDigit, cs.dropWhile Char.isDigit)

def takeSign : List Char → Bool × List Char
  | '-' :: rest => (true, rest)
  | '+' :: rest => (false, rest)
  | cs => (false, cs)

namespace Numeral

/-- An exponent at the head of a text, if there is one; it must have a digit. -/
def scanExponent? (cs : List Char) : Option (Option (Bool × List Char) × List Char) :=
  match cs with
  | 'e' :: rest | 'E' :: rest =>
    let (negative, rest) := takeSign rest
    let (digits, rest) := takeDigits rest
    if digits.isEmpty then none else some (some (negative, digits), rest)
  | _ => some (none, cs)

def scanUnsigned? (negative : Bool) (cs : List Char) : Option (Numeral × List Char) :=
  let (whole, rest) := takeDigits cs
  let (fraction, rest) := match rest with
    | '.' :: rest => let (digits, rest) := takeDigits rest; (some digits, rest)
    | _ => (none, rest)
  (scanExponent? rest).map fun (exponent, rest) => (⟨negative, whole, fraction, exponent⟩, rest)

def exponentValue (n : Numeral) : Int :=
  match n.exponent with
  | some (true, digits) => -(Nat.ofDigitChars 10 digits 0 : Int)
  | some (false, digits) => Nat.ofDigitChars 10 digits 0
  | none => 0

/-- The nearest double.  Numbers beyond any power of ten that doubles reach are settled at once. -/
def value (n : Numeral) : Float :=
  let fraction := n.fraction.getD []
  let digits := (n.whole ++ fraction).dropWhile (· == '0')
  let mantissa := Nat.ofDigitChars 10 digits 0
  let exponent := n.exponentValue - fraction.length
  let magnitude := exponent + digits.length
  let size : Float :=
    if digits.isEmpty ∨ magnitude < -400 then 0.0
    else if 400 < magnitude then 1.0 / 0.0
    else Float.ofScientific mantissa (exponent < 0) exponent.natAbs
  if n.negative then -size else size

def hasDigits (n : Numeral) : Bool :=
  !n.whole.isEmpty || !(n.fraction.getD []).isEmpty

end Numeral

def lowerCase (cs : List Char) : List Char :=
  cs.map Char.toLower

/-- A number with an optional sign, digits on at least one side of the point, and an optional
exponent; or one of the words `inf`, `infinity` and `nan` in any case. -/
def readFloat? (cs : List Char) : Option Float :=
  let (negative, rest) := takeSign cs
  let word := lowerCase rest
  if word = "inf".toList ∨ word = "infinity".toList then
    some (if negative then -(1.0 / 0.0) else 1.0 / 0.0)
  else if word = "nan".toList then some (0.0 / 0.0)
  else
    match Numeral.scanUnsigned? negative rest with
    | some (numeral, []) => if numeral.hasDigits then some numeral.value else none
    | _ => none

end TextScore.Decimal

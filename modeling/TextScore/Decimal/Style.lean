import TextScore.Decimal.Shortest

/-!
# Style — how a number is written

A style says which numbers are written out in positional notation and which with an exponent,
whether a whole number keeps its `.0`, and what stands for the values that are no numbers.  Two
styles are in use: the one of messages and the one of JSON texts.
-/

namespace TextScore.Decimal

structure NumberStyle where
  tie : Tie
  /-- Positional notation is used when the leading digit's exponent lies between the two. -/
  positional : Option (Int × Int)
  /-- Whole numbers in positional notation end in `.0`. -/
  keepsPoint : Bool
  nan : String
  infinity : String
  minusInfinity : String

/-- Messages write every digit out and drop the point of whole numbers. -/
def messageStyle : NumberStyle where
  tie := .up
  positional := none
  keepsPoint := false
  nan := "NaN"
  infinity := "inf"
  minusInfinity := "-inf"

/-- JSON texts keep the point, and use an exponent below `10 ^ -5` and from `10 ^ 16` on. -/
def jsonStyle : NumberStyle where
  tie := .toEven
  positional := some (-5, 15)
  keepsPoint := true
  nan := "null"
  infinity := "null"
  minusInfinity := "null"

namespace NumberStyle

/-- Digits with the point placed after `point` of them, zeros filling the gap on either side. -/
def writePositional (style : NumberStyle) (digits : List Char) (point : Int) : List Char :=
  let tail := if style.keepsPoint then ['.', '0'] else []
  if point ≤ 0 then '0' :: '.' :: (List.replicate (-point).toNat '0' ++ digits)
  else if digits.length ≤ point then
    digits ++ List.replicate (point - digits.length).toNat '0' ++ tail
  else digits.take point.toNat ++ '.' :: digits.drop point.toNat

def writeScientific (digits : List Char) (magnitude : Int) : List Char :=
  let sign := if magnitude < 0 then '-' else '+'
  let fraction := match digits.tail with
    | [] => []
    | rest => '.' :: rest
  digits.take 1 ++ fraction ++ 'e' :: sign :: Nat.toDigits 10 magnitude.natAbs

def writeMagnitude (style : NumberStyle) (mantissa : Nat) (exponent : Int) : List Char :=
  if mantissa = 0 then if style.keepsPoint then ['0', '.', '0'] else ['0']
  else
    let decimal := shortest style.tie mantissa exponent
    let digits := Nat.toDigits 10 decimal.digits
    let point := decimal.exponent + digits.length
    let positional := match style.positional with
      | none => true
      | some (least, greatest) => decide (least ≤ point - 1 ∧ point - 1 ≤ greatest)
    if positional then style.writePositional digits point
    else writeScientific digits (point - 1)

def write (style : NumberStyle) (x : Float) : String :=
  match Binary64.ofFloat x with
  | .nan => style.nan
  | .infinite negative => if negative then style.minusInfinity else style.infinity
  | .finite negative mantissa exponent =>
    String.ofList ((if negative then ['-'] else []) ++ style.writeMagnitude mantissa exponent)

end NumberStyle

def inMessage (x : Float) : String :=
  messageStyle.write x

/-- The exact value rounded to `places` decimals, halves to the even neighbour. -/
def fixed (places : Nat) (x : Float) : String :=
  match Binary64.ofFloat x with
  | .finite negative mantissa exponent =>
    let num := mantissa * twoTo exponent.toNat * tenTo places
    let scaled := divToEven num (twoTo (-exponent).toNat)
    let fraction := Nat.toDigits 10 (scaled % tenTo places)
    let padded := List.replicate (places - fraction.length) '0' ++ fraction
    String.ofList ((if negative then ['-'] else []) ++ Nat.toDigits 10 (scaled / tenTo places)
      ++ (if places = 0 then [] else '.' :: padded))
  | _ => inMessage x

end TextScore.Decimal

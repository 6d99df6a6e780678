/-!
# Binary64 — the exact value of a double

A finite double is `mantissa · 2 ^ exponent` with a sign.  Everything that has to know the exact
value of a number, to print it or to round it, reads it from here.
-/

namespace TextScore.Decimal

def twoTo (n : Nat) : Nat := 1 <<< n

def tenTo (n : Nat) : Nat := Nat.pow 10 n

inductive Binary64 where
  | nan
  | infinite (negative : Bool)
  | finite (negative : Bool) (mantissa : Nat) (exponent : Int)
  deriving DecidableEq, Repr

namespace Binary64

/-- The fields of the binary64 format; a biased exponent of zero marks the subnormal numbers. -/
def ofBits (bits : Nat) : Binary64 :=
  let negative := bits / twoTo 63 % 2 == 1
  let biased : Nat := bits / twoTo 52 % twoTo 11
  let fraction : Nat := bits % twoTo 52
  if biased = 2047 then
    if fraction = 0 then .infinite negative else .nan
  else if biased = 0 then .finite negative fraction (-1074)
  else .finite negative (fraction + twoTo 52) ((biased : Int) - 1075)

def ofFloat (x : Float) : Binary64 :=
  ofBits x.toBits.toNat

end Binary64

def digitCount (n : Nat) : Nat :=
  (Nat.toDigits 10 n).length

/-- `num / den` rounded to the nearest natural number, halves to the even neighbour. -/
def divToEven (num den : Nat) : Nat :=
  let q := num / den
  let r := num % den
  if 2 * r < den then q
  else if den < 2 * r then q + 1
  else q + q % 2

/-- The nearest whole number, halves away from zero. -/
def roundHalfAway (x : Float) : Float :=
  match Binary64.ofFloat x with
  | .finite negative mantissa exponent =>
    if 0 ≤ exponent then x
    else
      let den := twoTo (-exponent).toNat
      let whole := Float.ofNat ((2 * mantissa + den) / (2 * den))
      if negative then -whole else whole
  | _ => x

end TextScore.Decimal

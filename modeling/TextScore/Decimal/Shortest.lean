import TextScore.Decimal.Binary64

/-!
# Shortest — the fewest digits that read back

Of all decimals that round to a given double, the one with the fewest digits is chosen, and among
those the nearest to the exact value.  On the grid of `10 ^ k` only the two neighbours of the value
have to be tried: if any point of the grid reads back, one of them does.
-/

namespace TextScore.Decimal

structure Expansion where
  digits : Nat
  exponent : Int
  deriving DecidableEq, Repr

inductive Tie where
  | up
  | toEven
  deriving DecidableEq, Repr

/-- A positive double and the reals that round to it, all as numerators over `den`. -/
structure RoundingRange where
  low : Nat
  value : Nat
  high : Nat
  den : Nat
  /-- The ends round to the double too; so it is when its mantissa is even. -/
  closed : Bool
  deriving DecidableEq, Repr

namespace RoundingRange

/-- The range of `mantissa · 2 ^ exponent`.  Half a unit lies on either side, except that below a
power of two the doubles are twice as dense. -/
def ofBinary (mantissa : Nat) (exponent : Int) : RoundingRange :=
  let dense := mantissa == twoTo 52 && exponent != -1074
  let scale := twoTo (exponent - 2).toNat
  { low := (4 * mantissa - (if dense then 1 else 2)) * scale
    value := 4 * mantissa * scale
    high := (4 * mantissa + 2) * scale
    den := twoTo (2 - exponent).toNat
    closed := mantissa % 2 == 0 }

def magnitude (r : RoundingRange) : Int :=
  if r.den ≤ r.value then (digitCount (r.value / r.den) : Int) - 1
  else -(digitCount ((r.den - 1) / r.value) : Int)

def contains (r : RoundingRange) (num den' : Nat) : Bool :=
  let x := num * r.den
  let low := r.low * den'
  let high := r.high * den'
  if r.closed then low ≤ x && x ≤ high else low < x && x < high

/-- The multiple of `10 ^ k` nearest to the value among the two around it that read back. -/
def onGrid? (r : RoundingRange) (tie : Tie) (k : Int) : Option Expansion :=
  let up := tenTo k.toNat
  let down := tenTo (-k).toNat
  let below := r.value * down / (r.den * up)
  let above := below + 1
  let hasBelow := below != 0 && r.contains (below * up) down
  let hasAbove := r.contains (above * up) down
  if hasBelow && hasAbove then
    -- twice the value against the midpoint of the two neighbours
    let twice := 2 * (r.value * down)
    let middle := (below + above) * (r.den * up)
    if twice < middle then some ⟨below, k⟩
    else if middle < twice then some ⟨above, k⟩
    else match tie with
      | .up => some ⟨above, k⟩
      | .toEven => some ⟨if below % 2 = 0 then below else above, k⟩
  else if hasBelow then some ⟨below, k⟩
  else if hasAbove then some ⟨above, k⟩
  else none

end RoundingRange

def Expansion.normalize (d : Expansion) : Expansion :=
  let digits := Nat.toDigits 10 d.digits
  let zeros := (digits.reverse.takeWhile (· == '0')).length
  if d.digits = 0 then d else ⟨d.digits / tenTo zeros, d.exponent + zeros⟩

/-- The shortest decimal of a positive double; seventeen digits always read back. -/
def shortest (tie : Tie) (mantissa : Nat) (exponent : Int) : Expansion :=
  let range := RoundingRange.ofBinary mantissa exponent
  let top := range.magnitude
  let found := (List.range 17).findSome? fun (n : Nat) => range.onGrid? tie (top - n)
  (found.getD ⟨range.value * tenTo 17 / range.den, -17⟩).normalize

end TextScore.Decimal

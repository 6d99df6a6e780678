/-!
# Scalar — the numbers that measure time and width

Beats, seconds and pixels are counted in one kind of number.  The program runs on doubles; the same
definitions read over the rationals say what the arithmetic means before any rounding.
-/

namespace TextScore

class Scalar (α : Type) extends Add α, Sub α, Mul α, Div α where
  /-- The sum of nothing: adding it changes no number. -/
  nothing : α
  ofNat : Nat → α
  /-- The larger of two; what is no number never wins. -/
  larger : α → α → α
  /-- A finite number above zero. -/
  isPositive : α → Bool

namespace Scalar

variable {α : Type} [Scalar α]

/-- Terms are added from the left. -/
def sum (xs : List α) : α :=
  xs.foldl (· + ·) nothing

/-- Of two equal zeros the second is taken. -/
def largerFloat (x y : Float) : Float :=
  if x.isNaN || x ≤ y then y else x

/-- Doubles.  Minus zero is their neutral element: plus zero would turn it into plus zero. -/
instance : Scalar Float where
  nothing := -0.0
  ofNat := Float.ofNat
  larger := largerFloat
  isPositive x := x.isFinite && 0 < x

end Scalar

end TextScore

import TextScore.Scalar

/-!
# Duration — the five note lengths

A length is written as one letter and counts a whole number of sixteenths.  Beats are quarter
notes; every part of the program that measures time takes them from here.
-/

namespace TextScore

inductive Duration where
  | whole | half | quarter | eighth | sixteenth
  deriving DecidableEq, Repr, Inhabited

namespace Duration

def code : Duration → Char
  | whole => 'w'
  | half => 'h'
  | quarter => 'q'
  | eighth => 'e'
  | sixteenth => 's'

/-- Codes are single lower-case letters. -/
def ofCode? : List Char → Option Duration
  | ['w'] => some whole
  | ['h'] => some half
  | ['q'] => some quarter
  | ['e'] => some eighth
  | ['s'] => some sixteenth
  | _ => none

def sixteenths : Duration → Nat
  | whole => 16
  | half => 8
  | quarter => 4
  | eighth => 2
  | sixteenth => 1

/-- The length in quarter notes. -/
def beats {α : Type} [Scalar α] (d : Duration) : α :=
  Scalar.ofNat d.sixteenths / Scalar.ofNat 4

theorem ofCode?_code (d : Duration) : ofCode? [d.code] = some d := by
  cases d <;> rfl

end Duration

end TextScore

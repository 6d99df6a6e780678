import TextScore.Decimal.Style

/-!
# Json — values of the JSON format

Numbers are kept as they are written, since what a numeral is worth depends on who reads it.  An
escape in a string may stand for one half of a character outside the basic plane; a string with such
a half left alone is no text, and is kept as `none`.
-/

namespace TextScore

inductive Json where
  | null
  | bool (value : Bool)
  | number (numeral : List Char)
  | string (text : Option String)
  | array (items : List Json)
  | object (fields : List (Option String × Json))
  deriving Inhabited

namespace Json

def text (s : String) : Json :=
  .string (some s)

def ofNat (n : Nat) : Json :=
  .number (Nat.toDigits 10 n)

/-- What is no finite number is written as `null`. -/
def ofFloat (x : Float) : Json :=
  if x.isFinite then .number (Decimal.jsonStyle.write x).toList else .null

def ofOption {α : Type} (encode : α → Json) : Option α → Json
  | some x => encode x
  | none => .null

def ofList {α : Type} (encode : α → Json) (xs : List α) : Json :=
  .array (xs.map encode)

def record (fields : List (String × Json)) : Json :=
  .object (fields.map fun field => (some field.1, field.2))

end Json

end TextScore

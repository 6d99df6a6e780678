import TextScore.Json.Basic

/-!
# Print — JSON values as text

Strings escape the quote, the backslash and the control characters below the blank.  The compact
form holds no blanks; the indented form puts every item of a value that is not empty on a line of
its own, two blanks deeper.
-/

namespace TextScore.Json

def hexDigit (n : Nat) : Char :=
  if n < 10 then Char.ofNat ('0'.toNat + n) else Char.ofNat ('a'.toNat + n - 10)

def escape (c : Char) : List Char :=
  match c with
  | '"' => ['\\', '"']
  | '\\' => ['\\', '\\']
  | '\n' => ['\\', 'n']
  | '\r' => ['\\', 'r']
  | '\t' => ['\\', 't']
  | '\x08' => ['\\', 'b']
  | '\x0c' => ['\\', 'f']
  | c =>
    if c.toNat < 0x20 then
      ['\\', 'u', '0', '0', hexDigit (c.toNat / 16), hexDigit (c.toNat % 16)]
    else [c]

def quote (s : String) : String :=
  String.ofList ('"' :: (s.toList.flatMap escape ++ ['"']))

/-- A string without text has no written form of its own and is written as the empty one. -/
def quoteText (s : Option String) : String :=
  quote (s.getD "")

mutual

def compact : Json → String
  | .null => "null"
  | .bool value => if value then "true" else "false"
  | .number numeral => String.ofList numeral
  | .string text => quoteText text
  | .array items => "[" ++ compactItems items ++ "]"
  | .object fields => "\x7b" ++ compactFields fields ++ "\x7d"

def compactItems : List Json → String
  | [] => ""
  | [item] => compact item
  | item :: rest => compact item ++ "," ++ compactItems rest

def compactFields : List (Option String × Json) → String
  | [] => ""
  | [(key, value)] => quoteText key ++ ":" ++ compact value
  | (key, value) :: rest => quoteText key ++ ":" ++ compact value ++ "," ++ compactFields rest

end

mutual

/-- The same value with the fields of every object in the order of their names. -/
def sorted : Json → Json
  | .array items => .array (sortedItems items)
  | .object fields =>
    .object ((sortedFields fields).mergeSort fun a b => a.1.getD "" ≤ b.1.getD "")
  | value => value

def sortedItems : List Json → List Json
  | [] => []
  | item :: rest => sorted item :: sortedItems rest

def sortedFields : List (Option String × Json) → List (Option String × Json)
  | [] => []
  | (key, value) :: rest => (key, sorted value) :: sortedFields rest

end

def newLine (depth : Nat) : String :=
  String.ofList ('\n' :: List.replicate depth ' ')

mutual

/-- The indented form of a value whose line starts behind `depth` blanks. -/
def indented (depth : Nat) : Json → String
  | .null => "null"
  | .bool value => if value then "true" else "false"
  | .number numeral => String.ofList numeral
  | .string text => quoteText text
  | .array items =>
    if items.isEmpty then "[]"
    else "[" ++ newLine (depth + 2) ++ indentedItems (depth + 2) items ++ newLine depth ++ "]"
  | .object fields =>
    if fields.isEmpty then "\x7b\x7d"
    else
      "\x7b" ++ newLine (depth + 2) ++ indentedFields (depth + 2) fields ++ newLine depth ++ "\x7d"

def indentedItems (depth : Nat) : List Json → String
  | [] => ""
  | [item] => indented depth item
  | item :: rest => indented depth item ++ "," ++ newLine depth ++ indentedItems depth rest

def indentedFields (depth : Nat) : List (Option String × Json) → String
  | [] => ""
  | [(key, value)] => quoteText key ++ ": " ++ indented depth value
  | (key, value) :: rest =>
    quoteText key ++ ": " ++ indented depth value ++ "," ++ newLine depth
      ++ indentedFields depth rest

end

def pretty (value : Json) : String :=
  indented 0 value

end TextScore.Json

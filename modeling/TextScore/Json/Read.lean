import TextScore.Decimal.Numeral
import TextScore.Json.Basic

/-!
# Read — JSON values from text

The reader accepts the JSON grammar and nothing else: no comma before a closing bracket, no leading
zeros, no control characters in strings, nothing behind the value but blanks.
-/

namespace TextScore.Json

open Decimal

def isGap (c : Char) : Bool :=
  c == ' ' || c == '\n' || c == '\t' || c == '\r'

def skipGap (cs : List Char) : List Char :=
  cs.dropWhile isGap

/-! ## 1. Strings -/

def hexValue? (c : Char) : Option Nat :=
  if c.isDigit then some (c.toNat - '0'.toNat)
  else if 'a' ≤ c ∧ c ≤ 'f' then some (c.toNat - 'a'.toNat + 10)
  else if 'A' ≤ c ∧ c ≤ 'F' then some (c.toNat - 'A'.toNat + 10)
  else none

def hexUnit? (a b c d : Char) : Option Nat :=
  (hexValue? a).bind fun a => (hexValue? b).bind fun b => (hexValue? c).bind fun c =>
    (hexValue? d).map fun d => ((a * 16 + b) * 16 + c) * 16 + d

def simpleEscape? : Char → Option Char
  | '"' => some '"'
  | '\\' => some '\\'
  | '/' => some '/'
  | 'b' => some '\x08'
  | 'f' => some '\x0c'
  | 'n' => some '\n'
  | 'r' => some '\r'
  | 't' => some '\t'
  | _ => none

/-- What has been read of a string: its characters so far, newest first, unless some half of a
character was left alone. -/
abbrev Reading := Option (List Char)

def Reading.push (reading : Reading) (c : Char) : Reading :=
  reading.map (c :: ·)

/-- A half that waits for its other half and does not get it makes the string no text. -/
def settle (reading : Reading) (pending : Option Nat) : Reading :=
  if pending.isSome then none else reading

/-- One escaped code unit: a whole character, or a half that waits or completes the waiting one. -/
def pushUnit (reading : Reading) (pending : Option Nat) (unit : Nat) : Reading × Option Nat :=
  if 0xD800 ≤ unit ∧ unit < 0xDC00 then (settle reading pending, some unit)
  else if 0xDC00 ≤ unit ∧ unit < 0xE000 then
    match pending with
    | some high =>
      (reading.push (Char.ofNat (0x10000 + (high - 0xD800) * 0x400 + (unit - 0xDC00))), none)
    | none => (none, none)
  else ((settle reading pending).push (Char.ofNat unit), none)

/-- The rest of a string behind its opening quote, and what follows the closing one. -/
def readCharsAux (reading : Reading) (pending : Option Nat) :
    List Char → Option (Option String × List Char)
  | [] => none
  | '"' :: rest =>
    some ((settle reading pending).map fun cs => String.ofList cs.reverse, rest)
  | '\\' :: 'u' :: a :: b :: c :: d :: rest =>
    match hexUnit? a b c d with
    | some unit =>
      let next := pushUnit reading pending unit
      readCharsAux next.1 next.2 rest
    | none => none
  | '\\' :: c :: rest =>
    match simpleEscape? c with
    | some escaped => readCharsAux ((settle reading pending).push escaped) none rest
    | none => none
  | c :: rest =>
    if c.toNat < 0x20 ∨ c = '\\' then none
    else readCharsAux ((settle reading pending).push c) none rest

def readChars (cs : List Char) : Option (Option String × List Char) :=
  readCharsAux (some []) none cs

/-! ## 2. Numbers -/

/-- The numeral of a JSON number: whole digits without leading zeros, and a digit behind a point. -/
def scanNumber? (cs : List Char) : Option (Numeral × List Char) :=
  let (negative, rest) := match cs with
    | '-' :: rest => (true, rest)
    | _ => (false, cs)
  match Numeral.scanUnsigned? negative rest with
  | some (numeral, rest) =>
    let wholeFits := match numeral.whole with
      | [] => false
      | '0' :: others => others.isEmpty
      | _ => true
    if wholeFits ∧ numeral.fraction ≠ some [] then some (numeral, rest) else none
  | none => none

/-! ## 3. Values -/

def behind? (word : List Char) (cs : List Char) : Option (List Char) :=
  if word.isPrefixOf cs then some (cs.drop word.length) else none

mutual

/-- A value at the head of a text; `fuel` bounds the steps, of which two a character suffice. -/
def readValue (fuel : Nat) (cs : List Char) : Option (Json × List Char) :=
  match fuel with
  | 0 => none
  | fuel + 1 =>
    match skipGap cs with
    | '"' :: rest => (readChars rest).map fun (s, rest) => (.string s, rest)
    | '[' :: rest =>
      match skipGap rest with
      | ']' :: rest => some (.array [], rest)
      | rest => (readItems fuel rest).map fun (items, rest) => (.array items, rest)
    | '\x7b' :: rest =>
      match skipGap rest with
      | '\x7d' :: rest => some (.object [], rest)
      | rest => (readFields fuel rest).map fun (fields, rest) => (.object fields, rest)
    | 'n' :: rest => (behind? "ull".toList rest).map fun rest => (.null, rest)
    | 't' :: rest => (behind? "rue".toList rest).map fun rest => (.bool true, rest)
    | 'f' :: rest => (behind? "alse".toList rest).map fun rest => (.bool false, rest)
    | cs => (scanNumber? cs).map fun (_, rest) =>
        (.number (cs.take (cs.length - rest.length)), rest)

/-- The items of an array that has at least one, through the closing bracket. -/
def readItems (fuel : Nat) (cs : List Char) : Option (List Json × List Char) :=
  match fuel with
  | 0 => none
  | fuel + 1 =>
    (readValue fuel cs).bind fun (item, rest) =>
      match skipGap rest with
      | ']' :: rest => some ([item], rest)
      | ',' :: rest => (readItems fuel rest).map fun (items, rest) => (item :: items, rest)
      | _ => none

/-- The fields of an object that has at least one, through the closing brace. -/
def readFields (fuel : Nat) (cs : List Char) : Option (List (Option String × Json) × List Char) :=
  match fuel with
  | 0 => none
  | fuel + 1 =>
    match skipGap cs with
    | '"' :: rest =>
      (readChars rest).bind fun (key, rest) =>
        match skipGap rest with
        | ':' :: rest =>
          (readValue fuel rest).bind fun (value, rest) =>
            match skipGap rest with
            | '\x7d' :: rest => some ([(key, value)], rest)
            | ',' :: rest =>
              (readFields fuel rest).map fun (fields, rest) => ((key, value) :: fields, rest)
            | _ => none
        | _ => none
    | _ => none

end

def ofText? (s : String) : Option Json :=
  let cs := s.toList
  match readValue (2 * cs.length + 2) cs with
  | some (value, rest) => if (skipGap rest).isEmpty then some value else none
  | none => none

/-! ## 4. Looking into values -/

def toText? : Json → Option String
  | .string s => s
  | _ => none

def fieldsNamed (name : String) (fields : List (Option String × Json)) : List Json :=
  fields.filterMap fun field => if field.1 = some name then some field.2 else none

end TextScore.Json

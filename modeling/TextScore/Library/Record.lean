import TextScore.Calendar.Timestamp
import TextScore.Json.Number
import TextScore.Json.Print
import TextScore.Json.Read

/-!
# Record — a stored composition

A record keeps the text of a composition, not its document: a document is always read anew.  In JSON
a record is an object with five fields; fields of other names are passed over, and an array of the
five values in order is read as well.
-/

namespace TextScore.Library

open TextScore.Calendar

structure Record where
  id : String
  title : String
  updatedAt : Timestamp
  rawInput : String
  tempo : Float
  deriving DecidableEq, Repr

namespace Record

def toJson (r : Record) : Json :=
  Json.record [("id", Json.text r.id), ("title", Json.text r.title),
    ("updatedAt", Json.text r.updatedAt.toString), ("rawInput", Json.text r.rawInput),
    ("tempo", Json.ofFloat r.tempo)]

def ofValues? (id title updatedAt rawInput tempo : Json) : Option Record :=
  id.toText?.bind fun id => title.toText?.bind fun title =>
  updatedAt.toText?.bind fun stamp => (Timestamp.ofString? stamp).bind fun updatedAt =>
  rawInput.toText?.bind fun rawInput => tempo.toFloat?.map fun tempo =>
    ⟨id, title, updatedAt, rawInput, tempo⟩

end Record

def single? (name : String) (fields : List (Option String × Json)) : Option Json :=
  match Json.fieldsNamed name fields with
  | [value] => some value
  | _ => none

def hasTextKeys (fields : List (Option String × Json)) : Bool :=
  fields.all fun field => field.1.isSome

def Record.ofJson? : Json → Option Record
  | .object fields =>
    if hasTextKeys fields then
      (single? "id" fields).bind fun id => (single? "title" fields).bind fun title =>
      (single? "updatedAt" fields).bind fun updatedAt =>
      (single? "rawInput" fields).bind fun rawInput => (single? "tempo" fields).bind fun tempo =>
        ofValues? id title updatedAt rawInput tempo
    else none
  | .array [id, title, updatedAt, rawInput, tempo] => ofValues? id title updatedAt rawInput tempo
  | _ => none

end TextScore.Library

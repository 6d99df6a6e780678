import TextScore.Error
import TextScore.Library.Record

/-!
# Envelope — a library as one JSON text

A library is written as its version and its records.  Texts of earlier versions are read as well, and
one that names no version is of the first; a version from the future is refused, since its records
may hold more than this reader knows of.
-/

namespace TextScore.Library

def currentVersion : UInt32 := 2

structure Envelope where
  version : UInt32
  items : List Record
  deriving DecidableEq, Repr

namespace Envelope

def ofValues? (version items : Json) : Option Envelope :=
  version.toUInt32?.bind fun version =>
    match items with
    | .array items => (items.mapM Record.ofJson?).map fun items => ⟨version, items⟩
    | _ => none

/-- The version field may be left out. -/
def ofJson? : Json → Option Envelope
  | .object fields =>
    if hasTextKeys fields then
      let version := match Json.fieldsNamed "version" fields with
        | [] => some (Json.ofNat 1)
        | [value] => some value
        | _ => none
      version.bind fun version => (single? "items" fields).bind fun items =>
        ofValues? version items
    else none
  | .array [version, items] => ofValues? version items
  | _ => none

end Envelope

def encode (items : List Record) : String :=
  Json.pretty (Json.record [("version", Json.ofNat currentVersion.toNat),
    ("items", Json.ofList Record.toJson items)])

/-- The envelope a text holds, of any version up to the current one. -/
def openEnvelope (text : String) : Except StorageFault Envelope :=
  match (Json.ofText? text).bind Envelope.ofJson? with
  | none => .error .malformed
  | some envelope =>
    if currentVersion < envelope.version then
      .error (.unsupportedVersion envelope.version.toNat)
    else .ok envelope

def decode (text : String) : Except StorageFault (List Record) :=
  (openEnvelope text).map (·.items)

/-- Reading an earlier version is remarked on. -/
def decodeJournal (text : String) : Journal :=
  match openEnvelope text with
  | .ok envelope =>
    if envelope.version < currentVersion then
      [⟨.debug, s!"migrating {envelope.items.length} compositions from library version " ++
        s!"{envelope.version.toNat}"⟩]
    else []
  | .error _ => []

end TextScore.Library

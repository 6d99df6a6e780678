import TextScore.Decimal.Style
import TextScore.TimeSignature

/-!
# Diagnostic — what is wrong with a text, and where

A fault is the cause: it holds the token that was read and what was expected of it.  A diagnostic is
a fault put into words at a place of the text.  Faults that dropped or replaced input are errors; a
measure that is too full or not full enough is only advice.
-/

namespace TextScore

inductive DiagnosticKind where
  | malformedTimeSignature
  | danglingToken
  | invalidPitch
  | invalidDuration
  | overfull
  | underfull
  | noValidNotes
  deriving DecidableEq, Repr

def DiagnosticKind.name : DiagnosticKind → String
  | malformedTimeSignature => "malformed-time-signature"
  | danglingToken => "dangling-token"
  | invalidPitch => "invalid-pitch"
  | invalidDuration => "invalid-duration"
  | overfull => "overfull"
  | underfull => "underfull"
  | noValidNotes => "no-valid-notes"

inductive Severity where
  | warning
  | error
  deriving DecidableEq, Repr

def Severity.name : Severity → String
  | warning => "warning"
  | error => "error"

/-- A remark on the text; lines and columns count from 1, columns in characters. -/
structure Diagnostic where
  line : Nat
  column : Option Nat
  kind : DiagnosticKind
  message : String
  deriving DecidableEq, Repr

namespace Diagnostic

def severity (d : Diagnostic) : Severity :=
  match d.kind with
  | .overfull | .underfull => .warning
  | _ => .error

def display (d : Diagnostic) : String :=
  match d.column with
  | some column => s!"line {d.line}, column {column}: {d.message}"
  | none => s!"line {d.line}: {d.message}"

end Diagnostic

/-- Which way a measure misses its signature. -/
inductive Misfit where
  | over
  | under
  deriving DecidableEq, Repr

inductive Fault where
  /-- The text before the bar is no signature. -/
  | malformedTimeSignature (text : List Char)
  /-- The last token of a line has no partner. -/
  | danglingToken (token : List Char)
  /-- The first half of a pair is no pitch; the second may be no duration either. -/
  | invalidPitch (symbol : List Char) (badDuration : Option (List Char))
  /-- Only the second half of a pair is wrong. -/
  | invalidDuration (duration symbol : List Char)
  /-- The notes of a measure, in its own beats, do not fill it. -/
  | misfit (way : Misfit) (measure : Nat) (beats : Float) (signature : TimeSignature)
  /-- A text of nothing but signatures and bars. -/
  | noValidNotes
  deriving DecidableEq, Repr

def noValidNotesMessage : String := "No valid notes found"

namespace Fault

def kind : Fault → DiagnosticKind
  | malformedTimeSignature _ => .malformedTimeSignature
  | danglingToken _ => .danglingToken
  | invalidPitch _ _ => .invalidPitch
  | invalidDuration _ _ => .invalidDuration
  | misfit .over _ _ _ => .overfull
  | misfit .under _ _ _ => .underfull
  | noValidNotes => .noValidNotes

def message : Fault → String
  | malformedTimeSignature text =>
    s!"Malformed time signature '{String.ofList text}' (expected <beats>/<beat-type> with " ++
      "positive numbers); using 4/4"
  | danglingToken token =>
    s!"Dangling token '{String.ofList token}' has no partner (expected <pitch|R> <duration> pairs)"
  | invalidPitch symbol badDuration =>
    let message := s!"Invalid pitch '{String.ofList symbol}' (expected a letter A-G, " ++
      "optional # or b, and an octave 0-9, or R for a rest)"
    match badDuration with
    | none => message
    | some duration => message ++ s!" and invalid duration '{String.ofList duration}'"
  | invalidDuration duration symbol =>
    s!"Invalid duration '{String.ofList duration}' after '{String.ofList symbol}' " ++
      "(expected one of w, h, q, e, s)"
  | misfit way measure beats signature =>
    let word := match way with
      | .over => "overfull"
      | .under => "underfull"
    s!"Measure {measure} is {word}: {Decimal.inMessage beats} of {signature.beats.toNat} beats in " ++
      signature.name
  | noValidNotes => noValidNotesMessage

def atPlace (fault : Fault) (line : Nat) (column : Option Nat) : Diagnostic :=
  ⟨line, column, fault.kind, fault.message⟩

end Fault

end TextScore

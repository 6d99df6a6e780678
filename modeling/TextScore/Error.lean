import TextScore.Decimal.Style

/-!
# Error — the hard stops, and what is only remarked

What goes wrong inside a notation text is reported beside the result and stops nothing.  The errors
here end an operation: a tempo that cannot be played, a strict reading that met a fault, and
failures of the configuration and of the library.

A text in a foreign format that cannot be read is refused without saying why; where a message has
room for the reason, `<detail>` stands in its place.

What the program remarks while it works stops nothing either.  Every part of it that keeps a journal
returns its remarks as data, beside the result and never mixed into it.
-/

namespace TextScore

/-! ## 1. Errors -/

inductive FileFault where
  | notFound
  | isDirectory
  | notADirectory
  | nameTooLong
  /-- A name with an octet zero, which no name may have. -/
  | zeroOctet
  | notUtf8
  deriving DecidableEq, Repr

def FileFault.message : FileFault → String
  | notFound => "No such file or directory (os error 2)"
  | isDirectory => "Is a directory (os error 21)"
  | notADirectory => "Not a directory (os error 20)"
  | nameTooLong => "File name too long (os error 36)"
  | zeroOctet => "file name contained an unexpected NUL byte"
  | notUtf8 => "stream did not contain valid UTF-8"

/-- Stands for the reason a reader of a foreign format would give. -/
def unstatedReason : String := "<detail>"

inductive ConfigFault where
  | malformed
  | unreadable (path : String) (fault : FileFault)
  | tempo (bpm : Float)
  | widths
  deriving DecidableEq, Repr

inductive StorageFault where
  | malformed
  | file (fault : FileFault)
  | unsupportedVersion (version : Nat)
  | wouldOverwrite (path : String) (cause : StorageFault)
  deriving DecidableEq, Repr

inductive ScoreError where
  | invalidTempo (bpm : Float)
  | parse (line : Nat) (column : Option Nat) (message : String)
  | emptyDocument
  | config (fault : ConfigFault)
  | storage (fault : StorageFault)
  | notFound (id : String)
  deriving DecidableEq, Repr

def invalidTempoMessage (bpm : Float) : String :=
  s!"Invalid tempo: {Decimal.inMessage bpm} (must be a positive number of beats per minute)"

def ConfigFault.message : ConfigFault → String
  | malformed => unstatedReason
  | unreadable path fault => s!"cannot read {path}: {fault.message}"
  | tempo bpm => invalidTempoMessage bpm
  | widths => "layout widths must be positive"

def StorageFault.message : StorageFault → String
  | malformed => unstatedReason
  | file _ => unstatedReason
  | unsupportedVersion version => s!"unsupported library version {version}"
  | wouldOverwrite path cause =>
    s!"refusing to overwrite {path}: Storage error: {cause.message}"

def ScoreError.message : ScoreError → String
  | invalidTempo bpm => invalidTempoMessage bpm
  | parse line _ message => s!"Parse error at line {line}: {message}"
  | emptyDocument => "Nothing to play: the document has no measures"
  | config fault => s!"Invalid config: {fault.message}"
  | storage fault => s!"Storage error: {fault.message}"
  | notFound id => s!"No stored composition with id '{id}'"

/-! ## 2. Remarks -/

inductive Level where
  | trace | debug | warn
  deriving DecidableEq, Repr

def Level.name : Level → String
  | trace => "trace"
  | debug => "debug"
  | warn => "warn"

/-- How often more remarks must be asked for before those of a level are shown. -/
def Level.depth : Level → Nat
  | warn => 0
  | debug => 1
  | trace => 2

structure Remark where
  level : Level
  text : String
  deriving DecidableEq, Repr

abbrev Journal := List Remark

def Journal.shown (journal : Journal) (verbosity : Nat) : Journal :=
  journal.filter fun remark => remark.level.depth ≤ verbosity

end TextScore

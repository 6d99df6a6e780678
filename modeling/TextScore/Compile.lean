import TextScore.Config
import TextScore.Schedule

/-!
# Compile — everything a screen and a player need

A text is read, scheduled and laid out in one go.  Compiling keeps what could be read; strict
compiling gives up at the first diagnostic.
-/

namespace TextScore

structure Compiled where
  document : Document
  diagnostics : List Diagnostic
  warnings : List Diagnostic
  schedule : List (Event Float)
  layout : StaffGeometry Float
  notes : List PlacedNote

namespace Compile

/-- The error of a text without a document, made of its first diagnostic if it has one. -/
def missingDocument (output : ParseOutput) : ScoreError :=
  let first := output.diagnostics.head?
  .parse ((first.map (·.line)).getD 1) (first.bind (·.column))
    ((first.map (·.message)).getD noValidNotesMessage)

def finish (style : StaffStyle Float) (container : Float) (output : ParseOutput) :
    Except ScoreError Compiled :=
  match output.document with
  | none => .error (missingDocument output)
  | some doc => .ok
    { document := doc
      diagnostics := output.diagnostics
      warnings := output.warnings
      schedule := doc.schedule
      layout := Staff.geometry style container doc.measures
      notes := doc.placedNotes }

def finishJournal (style : StaffStyle Float) (container : Float) (output : ParseOutput) : Journal :=
  match output.document with
  | none => []
  | some doc =>
    eventsJournal doc doc.tempo.bpm ++ Staff.geometryJournal style container doc.measures

end Compile

/-- Keeps the parts of a text that can be read. -/
def compile (options : ParseOptions) (container : Float) (text : String) :
    Except ScoreError Compiled :=
  Compile.finish .standard container (Notation.parse options text)

def compileJournal (options : ParseOptions) (container : Float) (text : String) : Journal :=
  Notation.parseJournal text
    ++ Compile.finishJournal .standard container (Notation.parse options text)

/-- Fails at the first diagnostic; warnings do not fail. -/
def compileStrict (options : ParseOptions) (container : Float) (text : String) :
    Except ScoreError Compiled :=
  let output := Notation.parse options text
  match output.firstError? with
  | some error => .error error
  | none => Compile.finish .standard container output

def compileStrictJournal (options : ParseOptions) (container : Float) (text : String) : Journal :=
  let output := Notation.parse options text
  Notation.parseJournal text
    ++ (if output.hasErrors then [] else Compile.finishJournal .standard container output)

/-- Title, tempo and style are taken from a configuration. -/
def compileWith (config : Config) (container : Float) (text : String) :
    Except ScoreError Compiled :=
  Compile.finish config.layout container (Notation.parse config.parseOptions text)

def compileWithJournal (config : Config) (container : Float) (text : String) : Journal :=
  Notation.parseJournal text
    ++ Compile.finishJournal config.layout container (Notation.parse config.parseOptions text)

end TextScore

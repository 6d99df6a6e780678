import TextScore.Command.Arguments
import TextScore.Config.Read
import TextScore.Document
import TextScore.Exchange
import TextScore.Folder
import TextScore.Json.Print

/-!
# Run — carrying out a command

A command reads its configuration, then its file, and writes to the two output streams; only
formatting may write a file.  It ends with 0 when it did what it was asked to, with 1 when it could
not, and with 2 when its arguments make no sense.
-/

namespace TextScore.Command

/-! ## 1. Files -/

/-- What a command does with files: it reads a whole file as text, or writes one. -/
class Files (m : Type → Type) where
  read : String → m (Except FileFault String)
  write : String → String → m (Except FileFault Unit)

/-- The files of a folder; a failed write leaves it as it is. -/
instance : Files (StateM Folder) where
  read path := fun folder => (folder.read path, folder)
  write path content := fun folder =>
    match folder.write path content with
    | .ok folder => (.ok (), folder)
    | .error fault => (.error fault, folder)

/-! ## 2. Printing -/

structure Outcome where
  exitCode : Nat
  stdout : String
  stderr : String
  /-- The remarks that the verbosity lets through. -/
  journal : Journal

/-- What has been printed so far; a failure is a message for the error stream. -/
structure Printed where
  stdout : String
  stderr : String
  journal : Journal
  failure : Option String

namespace Printed

def fail (message : String) (stderr : String) (journal : Journal) : Printed :=
  ⟨"", stderr, journal, some message⟩

def outcome (printed : Printed) (verbosity : Nat) : Outcome :=
  let journal := printed.journal.shown verbosity
  match printed.failure with
  | none => ⟨0, printed.stdout, printed.stderr, journal⟩
  | some message => ⟨1, printed.stdout, printed.stderr ++ s!"Error: {message}\n", journal⟩

end Printed

def versionText : String := "scorepad 0.1.0\n"

def helpText : String :=
  "Compile line-oriented music notation text\n\n" ++
    "Usage: scorepad [OPTIONS] <check|format|schedule|layout> <FILE>\n"

def messageLines (file : String) (output : ParseOutput) : String :=
  String.join (output.allMessages.map fun d => s!"{file}: {d.severity.name}: {d.display}\n")

def checkText (file source : String) (config : Config) : Printed :=
  let output := Notation.parse config.parseOptions source
  let journal := Notation.parseJournal source
  let messages := messageLines file output
  match output.document with
  | some doc =>
    let errors := output.diagnostics.length
    let warnings := output.warnings.length
    ⟨s!"{file}: {doc.measures.length} measures, {doc.noteCount} notes, {errors} errors, " ++
      s!"{warnings} warnings\n", messages, journal, none⟩
  | none => .fail s!"{file}: no valid notes" messages journal

/-- Formatting drops whatever could not be read, so that has to be asked for. -/
def canonicalText (output : ParseOutput) (force : Bool) : Except String String :=
  if output.hasErrors && !force then
    .error (s!"{output.diagnostics.length} invalid entries would be dropped " ++
      "(use --force to format anyway)")
  else match output.document with
    | some doc => .ok (Notation.print doc)
    | none => .error "no valid notes"

/-- The schedule of a text as JSON; a tempo given here is used in place of the configured one. -/
def scheduleText (source : String) (config : Config) : Printed :=
  let journal := compileWithJournal config 0.0 source
  match compileWith config 0.0 source with
  | .error e => .fail e.message "" journal
  | .ok compiled =>
    if compiled.document.isEmpty then .fail ScoreError.emptyDocument.message "" journal
    else ⟨(Json.ofList Event.toJson compiled.schedule).pretty ++ "\n", "", journal, none⟩

def layoutText (source : String) (config : Config) (width : Float) : Printed :=
  let journal := compileWithJournal config width source
  match compileWith config width source with
  | .error e => .fail e.message "" journal
  | .ok compiled =>
    let value := Json.record [("geometry", compiled.layout.toJson),
      ("notes", Json.ofList PlacedNote.toJson compiled.notes)]
    ⟨value.sorted.pretty ++ "\n", "", journal, none⟩

/-! ## 3. Carrying out -/

section Effects

variable {m : Type → Type} [Monad m] [Files m]

def withSource (file : String) (next : String → m Printed) : m Printed := do
  match ← Files.read file with
  | .ok source => next source
  | .error fault => return .fail s!"Error reading file '{file}': {fault.message}" "" []

/-- The canonical text, on the output stream or in a file. -/
def formatText (file source : String) (config : Config) (output : Option String)
    (force : Bool) : m Printed := do
  let parsed := Notation.parse config.parseOptions source
  let journal := Notation.parseJournal source
  let messages := messageLines file parsed
  match canonicalText parsed force with
  | .error message => return .fail s!"{file}: {message}" messages journal
  | .ok text =>
    match output with
    | none => return ⟨text ++ "\n", messages, journal, none⟩
    | some path =>
      match ← Files.write path (text ++ "\n") with
      | .ok () => return ⟨"", messages ++ s!"Wrote {path}\n", journal, none⟩
      | .error fault =>
        return .fail s!"Error writing to '{path}': {fault.message}" messages journal

def perform (request : Request) (config : Config) : m Printed :=
  match request.action with
  | .check => withSource request.file fun source => return checkText request.file source config
  | .format output force =>
    withSource request.file fun source => formatText request.file source config output force
  | .schedule none =>
    withSource request.file fun source => return scheduleText source config
  | .schedule (some bpm) =>
    match Tempo.ofBpm bpm with
    | .error e => return .fail e.message "" []
    | .ok tempo =>
      withSource request.file fun source =>
        return scheduleText source { config with tempo := tempo.bpm }
  | .layout width =>
    withSource request.file fun source => return layoutText source config width

/-- The configuration of a request; a title given there is used in place of the configured one. -/
def configOf (request : Request) : m (Except ScoreError Config) := do
  match request.config with
  | none => return .ok .standard
  | some path => return (Config.ofFile path (← Files.read path)).mapError .config

def withTitle (request : Request) (config : Config) : Config :=
  match request.title with
  | some title => { config with title := title }
  | none => config

def execute (request : Request) : m Outcome := do
  match ← configOf request with
  | .error e => return (Printed.fail e.message "" []).outcome request.verbosity
  | .ok config =>
    return (← perform request (withTitle request config)).outcome request.verbosity

def run (args : List String) : m Outcome :=
  match parse args with
  | .error .usage => return ⟨2, "", "", []⟩
  | .error .help => return ⟨0, helpText, "", []⟩
  | .error .version => return ⟨0, versionText, "", []⟩
  | .ok request => execute request

end Effects

end TextScore.Command

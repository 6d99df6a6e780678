import TextScore.Decimal.Numeral

/-!
# Arguments — what a command line asks for

A command line names one of four actions on a file.  Options are long or short, and take their value
behind an equals sign or as the next argument; short ones may be run together.  Three options belong
to every action and may stand on either side of its name, where the later place wins.  An option may
not be repeated, except the one that asks for more remarks.
-/

namespace TextScore.Command

inductive Setting where
  | config (path : String)
  | title (text : String)
  | verbose
  | output (path : String)
  | force
  | tempo (bpm : Float)
  | width (pixels : Float)
  deriving Repr

inductive OptionName where
  | config | title | verbose | output | force | tempo | width | help | version
  deriving DecidableEq, Repr

namespace OptionName

def long : OptionName → String
  | config => "config"
  | title => "title"
  | verbose => "verbose"
  | output => "output"
  | force => "force"
  | tempo => "tempo"
  | width => "width"
  | help => "help"
  | version => "version"

def short? : OptionName → Option Char
  | verbose => some 'v'
  | output => some 'o'
  | help => some 'h'
  | version => some 'V'
  | _ => none

def takesValue : OptionName → Bool
  | config | title | output | tempo | width => true
  | _ => false

end OptionName

inductive Halt where
  | usage
  | help
  | version
  deriving DecidableEq, Repr

abbrev Parsed (α : Type) := Except Halt α

def Setting.name : Setting → OptionName
  | config _ => .config
  | title _ => .title
  | verbose => .verbose
  | output _ => .output
  | force => .force
  | tempo _ => .tempo
  | width _ => .width

/-- A path may not be empty, and a number must be one. -/
def settingOf (name : OptionName) (value : String) : Parsed Setting :=
  let path (make : String → Setting) : Parsed Setting :=
    if value = "" then .error .usage else .ok (make value)
  let number (make : Float → Setting) : Parsed Setting :=
    match Decimal.readFloat? value.toList with
    | some x => .ok (make x)
    | none => .error .usage
  match name with
  | .config => path .config
  | .title => .ok (.title value)
  | .output => path .output
  | .tempo => number .tempo
  | .width => number .width
  | .verbose | .force | .help | .version => .error .usage

def flagOf : OptionName → Parsed Setting
  | .verbose => .ok .verbose
  | .force => .ok .force
  | .help => .error .help
  | .version => .error .version
  | _ => .error .usage

/-- One more setting; only `verbose` may be repeated. -/
def addSetting (settings : List Setting) (setting : Setting) : Parsed (List Setting) :=
  if setting.name ≠ .verbose ∧ settings.any fun s => s.name = setting.name then .error .usage
  else .ok (settings ++ [setting])

/-- An argument that starts an option; a single dash is an ordinary argument. -/
def looksLikeOption (arg : String) : Bool :=
  match arg.toList with
  | '-' :: _ :: _ => true
  | _ => false

def nextValue : List String → Parsed (String × List String)
  | value :: rest => if looksLikeOption value then .error .usage else .ok (value, rest)
  | [] => .error .usage

/-- A long option with or without an inline value. -/
def longOption (names : List OptionName) (body : List Char) (rest : List String) :
    Parsed (Setting × List String) :=
  let key := String.ofList (body.takeWhile (· != '='))
  let inline? := match body.dropWhile (· != '=') with
    | _ :: value => some (String.ofList value)
    | [] => none
  match names.find? fun name => name.long = key with
  | none => .error .usage
  | some name =>
    if name.takesValue then
      match inline? with
      | some value => (settingOf name value).map (·, rest)
      | none => (nextValue rest).bind fun (value, rest) => (settingOf name value).map (·, rest)
    else if inline?.isSome then .error .usage
    else (flagOf name).map (·, rest)

/-- Short options that are run together; one that takes a value takes all that follows it. -/
def shortOptions (names : List OptionName) (settings : List Setting) (rest : List String) :
    List Char → Parsed (List Setting × List String)
  | [] => .ok (settings, rest)
  | c :: cluster =>
    match names.find? fun name => name.short? = some c with
    | none => .error .usage
    | some name =>
      if name.takesValue then
        let given : Parsed (String × List String) := match cluster with
          | [] => nextValue rest
          | '=' :: value => .ok (String.ofList value, rest)
          | value => .ok (String.ofList value, rest)
        given.bind fun (value, rest) => (settingOf name value).bind fun setting =>
          (addSetting settings setting).map (·, rest)
      else
        (flagOf name).bind fun setting => (addSetting settings setting).bind fun settings =>
          shortOptions names settings rest cluster

/-- Options up to the first ordinary argument, which is returned with what follows it; behind `--`
every argument is ordinary.  Every step takes at least one argument, so `fuel` need not exceed their
number. -/
def takeOptions (fuel : Nat) (names : List OptionName) (settings : List Setting)
    (args : List String) : Parsed (List Setting × Bool × List String) :=
  match fuel, args with
  | 0, _ => .ok (settings, false, args)
  | _, [] => .ok (settings, false, [])
  | fuel + 1, arg :: rest =>
    match arg.toList with
    | ['-', '-'] => .ok (settings, true, rest)
    | '-' :: '-' :: body =>
      (longOption names body rest).bind fun (setting, rest) =>
        (addSetting settings setting).bind fun settings => takeOptions fuel names settings rest
    | '-' :: c :: cluster =>
      (shortOptions names settings rest (c :: cluster)).bind fun (settings, rest) =>
        takeOptions fuel names settings rest
    | _ => .ok (settings, false, args)

/-- The options of an action on either side of its one ordinary argument. -/
def takeFile (names : List OptionName) (args : List String) :
    Parsed (List Setting × String) :=
  (takeOptions (args.length + 1) names [] args).bind fun (settings, literal, rest) =>
    match rest with
    | [] => .error .usage
    | file :: rest =>
      if file = "" then .error .usage
      else if literal then if rest.isEmpty then .ok (settings, file) else .error .usage
      else
        (takeOptions (rest.length + 1) names settings rest).bind fun (settings, _, rest) =>
          if rest.isEmpty then .ok (settings, file) else .error .usage

/-! ## Requests -/

inductive Action where
  | check
  | format (output : Option String) (force : Bool)
  | schedule (tempo : Option Float)
  | layout (width : Float)
  deriving Repr

structure Request where
  config : Option String
  title : Option String
  verbosity : Nat
  action : Action
  file : String
  deriving Repr

def commonNames : List OptionName := [.config, .title, .verbose, .help]

def namesOf : String → Option (List OptionName)
  | "check" => some commonNames
  | "format" => some (commonNames ++ [.output, .force])
  | "schedule" => some (commonNames ++ [.tempo])
  | "layout" => some (commonNames ++ [.width])
  | _ => none

def actionOf (name : String) (settings : List Setting) : Action :=
  match name with
  | "format" =>
    .format
      (settings.findSome? fun | .output path => some path | _ => none)
      (settings.any fun | .force => true | _ => false)
  | "schedule" => .schedule (settings.findSome? fun | .tempo bpm => some bpm | _ => none)
  | "layout" =>
    .layout ((settings.findSome? fun | .width pixels => some pixels | _ => none).getD 0.0)
  | _ => .check

def parse (args : List String) : Parsed Request :=
  (takeOptions (args.length + 1) (commonNames ++ [.version]) [] args).bind
    fun (outer, literal, rest) =>
      match rest with
      | [] => .error .usage
      | name :: rest =>
        if literal then .error .usage
        else if name = "help" then
          match rest with
          | [] => .error .help
          | [topic] =>
            if topic = "help" ∨ (namesOf topic).isSome then .error .help else .error .usage
          | _ => .error .usage
        else match namesOf name with
          | none => .error .usage
          | some names =>
            (takeFile names rest).map fun (inner, file) =>
              -- a setting behind the name of the action wins over one before it
              let all := inner ++ outer
              let count (settings : List Setting) :=
                (settings.filter fun s => s.name = .verbose).length
              { config := all.findSome? fun | .config path => some path | _ => none
                title := all.findSome? fun | .title text => some text | _ => none
                verbosity := if count inner = 0 then count outer else count inner
                action := actionOf name inner
                file := file }

end TextScore.Command

import TextScore.Config
import TextScore.Decimal.Numeral
import TextScore.Yaml.Node

/-!
# Read — configurations from YAML

Every key may be left out.  Unknown keys are refused at the top, since they are most likely misspelt,
and passed over in the layout; no key may be given twice.  Numbers must be written plainly: a quoted
number is a text.
-/

namespace TextScore.Config

open Yaml

/-- A finite decimal number with an optional sign, or one of the YAML words for the others. -/
def yamlFloat? (s : String) : Option Float :=
  let cs := s.toList
  let unsigned := match cs with
    | '+' :: rest => rest
    | _ => cs
  let signs := cs.takeWhile fun c => c == '+' || c == '-'
  if cs.head? = some '+' ∧ 1 < signs.length then none
  else if [".inf", ".Inf", ".INF"].contains (String.ofList unsigned) then some (1.0 / 0.0)
  else if ["-.inf", "-.Inf", "-.INF"].contains s then some (-(1.0 / 0.0))
  else if [".nan", ".NaN", ".NAN"].contains s then some (0.0 / 0.0)
  else (Decimal.readFloat? unsigned).filter Float.isFinite

def floatTag : List Char := "tag:yaml.org,2002:float".toList

/-- A number: a plain scalar, or a literal block that is tagged as a number. -/
def floatOf? (graph : Graph) (node : Node) : Option Float :=
  match graph.follow? node with
  | some (.scalar text .plain _) => yamlFloat? text
  | some (.scalar text .literal (some tag)) => if tag = floatTag then yamlFloat? text else none
  | _ => none

/-- Any scalar is a text, just as it is written. -/
def textOf? (graph : Graph) (node : Node) : Option String :=
  match graph.follow? node with
  | some (.scalar text _ _) => some text
  | _ => none

/-- The fields of a mapping by the text of their keys; a scalar that is not written has none. -/
def fieldsOf? (graph : Graph) (node : Node) : Option (List (String × Node)) :=
  match graph.follow? node with
  | some (.mapping entries) =>
    entries.mapM fun entry => (textOf? graph entry.1).map fun key => (key, entry.2)
  | some (.scalar text .plain _) => if text = "" then some [] else none
  | _ => none

/-- A field that may be left out, and then has its default; it must not occur twice. -/
def fieldOr? {α : Type} (fields : List (String × Node)) (name : String) (read : Node → Option α)
    (default : α) : Option α :=
  match fields.filter fun field => field.1 = name with
  | [] => some default
  | [field] => read field.2
  | _ => none

def styleOf? (graph : Graph) (node : Node) : Option (StaffStyle Float) :=
  (fieldsOf? graph node).bind fun fields =>
    let length? (name : String) (default : Float) := fieldOr? fields name (floatOf? graph) default
    let standard := StaffStyle.standard
    (length? "height" standard.height).bind fun height =>
    (length? "margin-x" standard.marginX).bind fun marginX =>
    (length? "margin-top" standard.marginTop).bind fun marginTop =>
    (length? "min-measure-width" standard.minMeasureWidth).bind fun minMeasureWidth =>
    (length? "pixels-per-complexity-unit" standard.pixelsPerComplexityUnit).bind fun unit =>
    (length? "fallback-width" standard.fallbackWidth).bind fun fallbackWidth =>
    (length? "density-weight" standard.densityWeight).map fun densityWeight =>
      ⟨height, marginX, marginTop, minMeasureWidth, unit, fallbackWidth, densityWeight⟩

def ofGraph? (graph : Graph) : Option Config :=
  (fieldsOf? graph graph.root).bind fun fields =>
    if fields.all fun field => ["title", "tempo", "layout"].contains field.1 then
      (fieldOr? fields "title" (textOf? graph) standard.title).bind fun title =>
      (fieldOr? fields "tempo" (floatOf? graph) standard.tempo).bind fun tempo =>
      (fieldOr? fields "layout" (styleOf? graph) standard.layout).map fun layout =>
        ⟨title, tempo, layout⟩
    else none

/-- The configuration a text describes; a text of blanks describes the standard one. -/
def ofText (text : String) : Except ConfigFault Config :=
  if Text.allBlank text.toList then .ok standard
  else match Yaml.ofText? text with
    | none => .error .malformed
    | some none => standard.check
    | some (some graph) =>
      match ofGraph? graph with
      | none => .error .malformed
      | some config => config.check

def ofFile (path : String) (content : Except FileFault String) : Except ConfigFault Config :=
  match content with
  | .ok text => ofText text
  | .error fault => .error (.unreadable path fault)

end TextScore.Config

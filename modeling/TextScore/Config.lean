import TextScore.Notation.Parse
import TextScore.Staff

/-!
# Config — settings given beside the text

A configuration names a title, a tempo and a style of drawing.  Checking looks at the tempo first
and then at the two widths that everything is measured by.
-/

namespace TextScore

structure Config where
  title : String
  tempo : Float
  layout : StaffStyle Float

namespace Config

def standard : Config := ⟨untitled, 120.0, .standard⟩

def check (config : Config) : Except ConfigFault Config :=
  if !Scalar.isPositive config.tempo then .error (.tempo config.tempo)
  else if config.layout.minMeasureWidth ≤ 0 || config.layout.pixelsPerComplexityUnit ≤ 0 then
    .error .widths
  else .ok config

/-- A tempo that cannot be played is replaced by the standard one. -/
def usableTempo (config : Config) : Tempo :=
  match Tempo.ofBpm config.tempo with
  | .ok tempo => tempo
  | .error _ => .standard

def parseOptions (config : Config) : ParseOptions :=
  ⟨some config.title, some config.usableTempo⟩

end Config

end TextScore

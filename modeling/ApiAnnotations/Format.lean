import ApiAnnotations.Text

/-! # Output formats -/

namespace ApiAnnotations

inductive Format
  | json
  | yaml
deriving DecidableEq

namespace Format

def name : Format → Text
  | .json => "JSON"
  | .yaml => "YAML"

def title : Format → Text
  | .json => "Json"
  | .yaml => "Yaml"

/-- The value that chooses the format on the command line. -/
def ofName? (s : Text) : Option Format :=
  if s = "json".toList then some .json
  else if s = "yaml".toList then some .yaml
  else none

def fileName : Format → Text
  | .json => "swagger.json"
  | .yaml => "swagger.yaml"

end Format

end ApiAnnotations

import ApiAnnotations.Text

/-! # Errors of the annotation language

What can be wrong with one record. An error concerns that record only, never the file around it. -/

namespace ApiAnnotations

/-- What is wrong with an annotation; the text at fault is carried along. -/
inductive GrammarError
  | noLines
  | missingRoute
  | malformedRoute (line : Text)
  | malformedParam (argument : Text)
  | unknownLocation (name : Text)
  | invalidStatusCode (token : Text)
  | missingStatusCode
  | emptyTagList
  | missingModel
  | unnamedModel
deriving DecidableEq

def GrammarError.message : GrammarError → Text
  | .noLines => "Lines array cannot be empty"
  | .missingRoute => "No @route tag found in comment block"
  | .malformedRoute line =>
    "The tag @route is not in the correct format ".toList ++
      "(expected `<operationId> <verb> <path>`): '".toList ++ line ++ ['\'']
  | .malformedParam argument =>
    "The tag @param is not in the correct format ".toList ++
      "(expected `<name> <type> ...`): '".toList ++ argument ++ ['\'']
  | .unknownLocation name => "Invalid transport '".toList ++ name ++ ['\'']
  | .invalidStatusCode token => "Invalid status code '".toList ++ token ++ ['\'']
  | .missingStatusCode => "The tag @return requires a status code"
  | .emptyTagList => "Tags cannot be empty"
  | .missingModel => "No @model tag found in comment block"
  | .unnamedModel => "The tag @model requires a model name"

end ApiAnnotations

import ApiAnnotations.GrammarError
import ApiAnnotations.Text.Blank
import ApiAnnotations.Text.Decimal

/-! # Responses

`@return <statusCode> [schema] [description...]`. The schema is the name of a model, after `[]` an
array of it; `empty`, and nothing after `[]`, mean that there is no body.

* `Response.parse` reads the argument. -/

namespace ApiAnnotations

/-- A model's name, or an array of it. -/
structure SchemaRef where
  name : Text
  isArray : Bool
deriving DecidableEq

def SchemaRef.ofToken? (token : Text) : Option SchemaRef :=
  if token = "empty".toList then none
  else
    let schema : SchemaRef :=
      match Text.stripStart? "[]".toList token with
      | some name => ⟨name, true⟩
      | none => ⟨token, false⟩
    if schema.name.isEmpty then none else some schema

structure Response where
  statusCode : Nat
  schema : Option SchemaRef
  description : Text
deriving DecidableEq

namespace Response

/-- The largest status code. -/
def maxStatusCode : Nat := 65535

/-- Reads the argument of `@return`. -/
def parse (argument : Text) : Except GrammarError Response :=
  match Text.words argument with
  | [] => .error .missingStatusCode
  | code :: rest =>
    match Text.Decimal.unsigned? maxStatusCode code with
    | none => .error (.invalidStatusCode code)
    | some n => .ok ⟨n, rest.head?.bind SchemaRef.ofToken?, Text.unwords rest.tail⟩

end Response

end ApiAnnotations

import ApiAnnotations.FieldType
import ApiAnnotations.Json.Record
import ApiAnnotations.Route.Response

/-! # Schemas

A schema names a type, or refers to a definition, or says what an array holds. Schemas contain
schemas, so a schema is read by recursion on the depth that is left. -/

namespace ApiAnnotations

open Json (Codec Fault Field Reader Shape)

inductive Schema
  | mk (type : Option Text) (reference : Option Text) (items : Option Schema)

namespace Schema

def type : Schema → Option Text
  | .mk t _ _ => t

def reference : Schema → Option Text
  | .mk _ r _ => r

def items : Schema → Option Schema
  | .mk _ _ i => i

def blank : Schema := .mk none none none

def withType (t : Option Text) (s : Schema) : Schema := .mk t s.reference s.items

def withReference (r : Option Text) (s : Schema) : Schema := .mk s.type r s.items

def withItems (i : Option Schema) (s : Schema) : Schema := .mk s.type s.reference i

/-! ## Schemas of types -/

def definitionsPath : Text := "#/definitions/"

def typed (name : Text) : Schema := .mk (some name) none none

def referenceTo (model : Text) : Schema := .mk none (some (definitionsPath ++ model)) none

def arrayOf (model : Text) : Schema := .mk (some "array") none (some (referenceTo model))

def ofField : FieldType → Schema
  | .primitive p => typed p.name
  | .array model => arrayOf model
  | .object model => referenceTo model

def ofResponse (s : SchemaRef) : Schema := if s.isArray then arrayOf s.name else referenceTo s.name

/-! ## Reading and writing -/

/-- A member that is left out if there is no value. -/
def member (key : Text) (value : Option Json) : List (Text × Json) :=
  match value with
  | none => []
  | some v => [(key, v)]

/-- Writes a schema; what it does not say is left out. -/
def toJson : Schema → Json
  | .mk type reference items =>
    .object (member "type" (type.map .string) ++ member "$ref" (reference.map .string) ++
      match items with
      | none => []
      | some s => [("items".toList, toJson s)])

/-- The fields of a schema, given how the items are read. -/
def shape (inner : Reader Schema) : Shape Schema where
  blank := blank
  fields := [
    .optional "type" .text type withType,
    .optional "$ref" .text reference withReference,
    .optional "items" ⟨inner, toJson⟩ items withItems]

def read : (depth : Nat) → Json.Draft → Except Fault Schema
  | 0 => (shape (fun _ _ => .error .malformed)).read 0
  | depth + 1 => (shape (fun _ => read depth)).read (depth + 1)

def codec : Codec Schema := ⟨read, toJson⟩

end Schema

end ApiAnnotations

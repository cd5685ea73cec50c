import ApiAnnotations.Event
import ApiAnnotations.FieldType

/-! # Models

A model is named by the first `@model` argument of a block; its fields are read from the declaration
that follows the block. The declaration ends at a line that is a closing brace; blank lines, lines
beginning with the declaration keyword and comments are passed over, and of any other line the first
word is a field's name and the second its type.

* `BodyLine.of` says what a line contributes.
* `Model.parse` is the model of a block.
* `Model.passedOver` are the events about lines without a type. -/

namespace ApiAnnotations

structure ModelField where
  name : Text
  type : FieldType
deriving DecidableEq

/-- One schema of the API. The line is the one after the annotation. -/
structure Model where
  name : Text
  description : Option Text
  place : Place
  fields : List ModelField
deriving DecidableEq

structure DeclarationStyle where
  keyword : Text
  commentStart : Text
deriving DecidableEq

inductive BodyLine
  | nothing
  | closing
  | untyped (text : Text)
  | field (field : ModelField)
deriving DecidableEq

namespace BodyLine

def of (style : DeclarationStyle) (line : Text) : BodyLine :=
  let trimmed := Text.trim line
  if trimmed.isEmpty then .nothing
  else if Text.startsWith style.keyword (Text.trimStart line) then .nothing
  else if trimmed = ['}'] then .closing
  else if isComment trimmed then .nothing
  else
    match Text.words trimmed with
    | name :: type :: _ => .field ⟨name, .ofToken type⟩
    | _ => .untyped trimmed
where
  isComment (trimmed : Text) : Bool :=
    let start := Text.trim style.commentStart
    !start.isEmpty && Text.startsWith start trimmed

def field? : BodyLine → Option ModelField
  | .field f => some f
  | _ => none

def untyped? : BodyLine → Option Text
  | .untyped t => some t
  | _ => none

end BodyLine

namespace Model

/-- What the lines from line `start` on contribute, up to the closing line. -/
def body (style : DeclarationStyle) (lines : List Text) (start : Nat) : List BodyLine :=
  ((lines.drop start).map (BodyLine.of style)).takeWhile (fun l => l ≠ .closing)

/-- The name in the first `@model` argument. -/
def nameOf (table : DirectiveTable) : Except GrammarError Text :=
  match table.first? .model with
  | none => .error .missingModel
  | some argument =>
    match Text.words argument with
    | [] => .error .unnamedModel
    | name :: _ => .ok name

/-- The model annotated by a block; `place` is where its declaration begins. -/
def parse (style : DeclarationStyle) (lines : List Text) (table : DirectiveTable) (place : Place) :
    Except GrammarError Model :=
  match nameOf table with
  | .error e => .error e
  | .ok name => .ok {
      name := name
      description := table.description
      place := place
      fields := (body style lines place.line).filterMap BodyLine.field? }

/-- The events about the lines of a declaration that name no type. -/
def passedOver (style : DeclarationStyle) (lines : List Text) (table : DirectiveTable)
    (place : Place) : List Event :=
  match nameOf table with
  | .error _ => []
  | .ok name =>
    ((body style lines place.line).filterMap BodyLine.untyped?).map (.untypedLine place name)

end Model

end ApiAnnotations

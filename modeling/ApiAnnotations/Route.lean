import ApiAnnotations.Directive
import ApiAnnotations.Event
import ApiAnnotations.Route.Param
import ApiAnnotations.Route.Response

/-! # Routes

A route is read from the first `@route` argument of a block: operation id, verb and path. Its
parameters, responses and tags come from the other directives; an argument that cannot be read is
dropped with a warning, and of the tag lists that can be read the last one counts.

* `Route.parse` is the route of a block.
* `Route.dropped` are the warnings about what it leaves out. -/

namespace ApiAnnotations

/-- The tags of a list separated by commas; blanks around a tag and empty tags are dropped. -/
def parseTagList (argument : Text) : Except GrammarError (List Text) :=
  match ((Text.splitOn ',' argument).map Text.trim).filter (fun t => !t.isEmpty) with
  | [] => .error .emptyTagList
  | t :: ts => .ok (t :: ts)

/-- One operation of the API. The line is the one after the annotation. -/
structure Route where
  operationId : Text
  verb : Text
  path : Text
  description : Option Text
  params : List Param
  responses : List Response
  tags : List Text
  place : Place
deriving DecidableEq

namespace Route

structure Signature where
  operationId : Text
  verb : Text
  path : Text
deriving DecidableEq

/-- The signature in the first `@route` argument. -/
def signature (table : DirectiveTable) : Except GrammarError Signature :=
  match table.first? .route with
  | none => .error .missingRoute
  | some line =>
    match Text.words line with
    | operationId :: verb :: path :: _ => .ok ⟨operationId, verb, path⟩
    | _ => .error (.malformedRoute line)

def parse (table : DirectiveTable) (place : Place) : Except GrammarError Route :=
  match signature table with
  | .error e => .error e
  | .ok s => .ok {
      operationId := s.operationId
      verb := s.verb
      path := s.path
      description := table.description
      params := (table.arguments .param).filterMap (fun a => (Param.parse a).toOption)
      responses := (table.arguments .response).filterMap (fun a => (Response.parse a).toOption)
      tags :=
        ((table.arguments .tag).filterMap (fun a => (parseTagList a).toOption)).getLast?.getD []
      place := place }

def refusals {α : Type} (read : Text → Except GrammarError α) (event : Text → GrammarError → Event)
    (arguments : List Text) : List Event :=
  arguments.filterMap fun a =>
    match read a with
    | .error e => some (event a e)
    | .ok _ => none

/-- The warnings about the arguments that the route of a block leaves out. -/
def dropped (table : DirectiveTable) (place : Place) : List Event :=
  match signature table with
  | .error _ => []
  | .ok s =>
    refusals Param.parse (.droppedParam place s.operationId) (table.arguments .param) ++
      refusals Response.parse (.droppedResponse place s.operationId) (table.arguments .response) ++
      refusals parseTagList (fun _ => .ignoredTags place s.operationId) (table.arguments .tag)

end Route

end ApiAnnotations

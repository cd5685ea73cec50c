import ApiAnnotations.Document.Schema
import ApiAnnotations.Metadata
import ApiAnnotations.Yaml

/-! # Documents

A Swagger 2.0 document: metadata, the operations of each path, and the definitions of models.

* `Document.shape` says how documents are read and written.
* `Document.toJson` and `Document.toYaml` are its texts, `Document.ofJson` reads one. -/

namespace ApiAnnotations

open Json (Codec Fault Field Shape)

/-- A parameter of an operation: it has a type and says whether it is required, or has a schema. -/
structure Parameter where
  name : Text
  location : Text
  description : Text
  required : Option Bool
  type : Option Text
  schema : Option Schema

def Parameter.shape : Shape Parameter where
  blank := ⟨[], [], [], none, none, none⟩
  fields := [
    .required "name" .text Parameter.name (fun v x => { x with name := v }),
    .required "in" .text Parameter.location (fun v x => { x with location := v }),
    .unlessEmpty "description" .text Parameter.description (fun v x => { x with description := v }),
    .optional "required" .bool Parameter.required (fun v x => { x with required := v }),
    .optional "type" .text Parameter.type (fun v x => { x with type := v }),
    .optional "schema" Schema.codec Parameter.schema (fun v x => { x with schema := v })]

structure ResponseObject where
  description : Text
  schema : Option Schema

def ResponseObject.shape : Shape ResponseObject where
  blank := ⟨[], none⟩
  fields := [
    .required "description" .text ResponseObject.description
      (fun v x => { x with description := v }),
    .optional "schema" Schema.codec ResponseObject.schema (fun v x => { x with schema := v })]

/-- What one verb does on one path. Responses are listed by status code. -/
structure Operation where
  description : Option Text
  operationId : Text
  tags : List Text
  consumes : List Text
  produces : List Text
  parameters : List Parameter
  responses : OrderedMap Text ResponseObject

def Operation.shape : Shape Operation where
  blank := ⟨none, [], [], [], [], [], ∅⟩
  fields := [
    .optional "description" .text Operation.description (fun v x => { x with description := v }),
    .required "operationId" .text Operation.operationId (fun v x => { x with operationId := v }),
    .unlessEmpty "tags" (.list .text) Operation.tags (fun v x => { x with tags := v }),
    .required "consumes" (.list .text) Operation.consumes (fun v x => { x with consumes := v }),
    .required "produces" (.list .text) Operation.produces (fun v x => { x with produces := v }),
    .unlessEmpty "parameters" (.list Parameter.shape.codec) Operation.parameters
      (fun v x => { x with parameters := v }),
    .required "responses" (.map ResponseObject.shape.codec) Operation.responses
      (fun v x => { x with responses := v })]

structure Definition where
  type : Text
  description : Option Text
  properties : OrderedMap Text Schema

def Definition.shape : Shape Definition where
  blank := ⟨[], none, ∅⟩
  fields := [
    .required "type" .text Definition.type (fun v x => { x with type := v }),
    .optional "description" .text Definition.description (fun v x => { x with description := v }),
    .required "properties" (.map Schema.codec) Definition.properties
      (fun v x => { x with properties := v })]

/-- A document. Operations are listed by path and then by verb. -/
structure Document where
  swagger : Text
  info : Info
  host : Text
  basePath : Text
  tags : List TagInfo
  schemes : List Text
  paths : OrderedMap Text (OrderedMap Text Operation)
  securityDefinitions : OrderedMap Text Json
  definitions : OrderedMap Text Definition

namespace Document

def shape : Shape Document where
  blank := ⟨[], .blank, [], [], [], [], ∅, ∅, ∅⟩
  fields := [
    .required "swagger" .text Document.swagger (fun v x => { x with swagger := v }),
    .required "info" Info.shape.codec Document.info (fun v x => { x with info := v }),
    .unlessEmpty "host" .text Document.host (fun v x => { x with host := v }),
    .unlessEmpty "basePath" .text Document.basePath (fun v x => { x with basePath := v }),
    .defaulted "tags" (.list TagInfo.shape.codec) Document.tags (fun v x => { x with tags := v }),
    .unlessEmpty "schemes" (.list .text) Document.schemes (fun v x => { x with schemes := v }),
    .required "paths" (.map (.map Operation.shape.codec)) Document.paths
      (fun v x => { x with paths := v }),
    .unlessEmptyMap "securityDefinitions" (.map .any) Document.securityDefinitions
      (fun v x => { x with securityDefinitions := v }),
    .required "definitions" (.map Definition.shape.codec) Document.definitions
      (fun v x => { x with definitions := v })]

def tree (d : Document) : Json := shape.write d

def toJson (d : Document) : Text := d.tree.pretty

def toYaml (d : Document) : Text := Yaml.ofTree d.tree

def ofJson (s : Text) : Except Fault Document := shape.read.run s

end Document

end ApiAnnotations

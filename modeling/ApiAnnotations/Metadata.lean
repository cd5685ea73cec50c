import ApiAnnotations.Json.Record

/-! # Metadata

What a document says about itself besides paths and definitions. It is read from JSON in which
almost everything may be missing.

* `Metadata.default` is used where there is no metadata, `Metadata.scaffold` is meant to be edited.
* `Metadata.shape` says how metadata are read and written. -/

namespace ApiAnnotations

open Json (Codec Field Shape)

structure Contact where
  email : Text
deriving DecidableEq

def Contact.shape : Shape Contact where
  blank := ⟨[]⟩
  fields := [.defaulted "email" .text Contact.email (fun v x => { x with email := v })]

structure License where
  name : Text
  url : Text
deriving DecidableEq

def License.shape : Shape License where
  blank := ⟨[], []⟩
  fields := [
    .defaulted "name" .text License.name (fun v x => { x with name := v }),
    .unlessEmpty "url" .text License.url (fun v x => { x with url := v })]

structure ExternalDocs where
  description : Text
  url : Text
deriving DecidableEq

def ExternalDocs.shape : Shape ExternalDocs where
  blank := ⟨[], []⟩
  fields := [
    .unlessEmpty "description" .text ExternalDocs.description
      (fun v x => { x with description := v }),
    .required "url" .text ExternalDocs.url (fun v x => { x with url := v })]

structure TagInfo where
  name : Text
  description : Text
  externalDocs : Option ExternalDocs
deriving DecidableEq

namespace TagInfo

/-- A tag of which only the name is known. -/
def bare (name : Text) : TagInfo := ⟨name, [], none⟩

def shape : Shape TagInfo where
  blank := bare []
  fields := [
    .required "name" .text TagInfo.name (fun v x => { x with name := v }),
    .unlessEmpty "description" .text TagInfo.description (fun v x => { x with description := v }),
    .optional "externalDocs" ExternalDocs.shape.codec TagInfo.externalDocs
      (fun v x => { x with externalDocs := v })]

end TagInfo

/-- Title, version and legal matters of the API. -/
structure Info where
  title : Text
  description : Text
  version : Text
  termsOfService : Text
  contact : Option Contact
  license : Option License
deriving DecidableEq

namespace Info

/-- An info without any content but the version that is assumed. -/
def blank : Info := ⟨[], [], "1.0.0", [], none, none⟩

def default : Info := { blank with title := "Generated API" }

def shape : Shape Info where
  blank := blank
  fields := [
    .defaulted "title" .text Info.title (fun v x => { x with title := v }),
    .unlessEmpty "description" .text Info.description (fun v x => { x with description := v }),
    .defaulted "version" .text Info.version (fun v x => { x with version := v }),
    .unlessEmpty "termsOfService" .text Info.termsOfService
      (fun v x => { x with termsOfService := v }),
    .optional "contact" Contact.shape.codec Info.contact (fun v x => { x with contact := v }),
    .optional "license" License.shape.codec Info.license (fun v x => { x with license := v })]

end Info

structure Metadata where
  swagger : Text
  info : Info
  host : Text
  basePath : Text
  tags : List TagInfo
  schemes : List Text
  securityDefinitions : OrderedMap Text Json

namespace Metadata

def default : Metadata where
  swagger := "2.0"
  info := .default
  host := []
  basePath := []
  tags := []
  schemes := []
  securityDefinitions := ∅

def scaffold : Metadata where
  swagger := "2.0"
  info := {
    title := "My api title"
    description := "My API Description"
    version := "0.1.0"
    termsOfService := "TOS"
    contact := some ⟨"example@email.com"⟩
    license := some ⟨"Apache 2.0", "http://www.apache.org/licenses/LICENSE-2.0.html"⟩ }
  host := "myhost.com"
  basePath := "/v1"
  tags := []
  schemes := ["http".toList]
  securityDefinitions := ∅

def shape : Shape Metadata where
  blank := default
  fields := [
    .defaulted "swagger" .text Metadata.swagger (fun v x => { x with swagger := v }),
    .defaulted "info" Info.shape.codec Metadata.info (fun v x => { x with info := v }),
    .unlessEmpty "host" .text Metadata.host (fun v x => { x with host := v }),
    .unlessEmpty "basePath" .text Metadata.basePath (fun v x => { x with basePath := v }),
    .defaulted "tags" (.list TagInfo.shape.codec) Metadata.tags (fun v x => { x with tags := v }),
    .unlessEmpty "schemes" (.list .text) Metadata.schemes (fun v x => { x with schemes := v }),
    .unlessEmptyMap "securityDefinitions" (.map .any) Metadata.securityDefinitions
      (fun v x => { x with securityDefinitions := v })]

def ofJson (s : Text) : Except Json.Fault Metadata := shape.read.run s

def toJson (m : Metadata) : Text := (shape.write m).pretty

end Metadata

end ApiAnnotations

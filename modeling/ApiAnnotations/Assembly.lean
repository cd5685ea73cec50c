import ApiAnnotations.Document
import ApiAnnotations.Extraction
import ApiAnnotations.Text.Lowercase

/-! # Assembly

The records of all files are merged into one document. Models are told apart by name, routes by path
and verb in lower case; a later record takes the place of an earlier one and leaves nothing of it.
All definitions are known before the parameters are looked at, so that a parameter may name a model
of any file.

* `Document.assemble` is the document, `Assembly.events` are the warnings about it. -/

namespace ApiAnnotations

/-- A path segment in the notation of documents: `:name` is written in braces. -/
def convertSegment : Text → Text
  | ':' :: name => ['{'] ++ name ++ ['}']
  | segment => segment

def convertPath (path : Text) : Text :=
  Text.joinWith ['/'] ((Text.splitOn '/' path).map convertSegment)

def mediaType : Text := "application/json"

def Definition.ofModel (m : Model) : Definition where
  type := "object"
  description := m.description
  properties := .ofList (m.fields.map (fun f => (f.name, .ofField f.type)))

/-- A parameter of an operation. A model that is known is referred to; any other name is a type. -/
def Parameter.ofParam (known : Text → Bool) (p : Param) : Parameter :=
  let typed : Parameter :=
    ⟨p.name, p.location.documentName, p.description, some p.required, some p.type.name, none⟩
  match p.type with
  | .primitive _ => typed
  | .reference name =>
    if known name then
      { typed with required := none, type := none, schema := some (.referenceTo name) }
    else typed

def ResponseObject.ofResponse (r : Response) : ResponseObject :=
  ⟨r.description, r.schema.map .ofResponse⟩

def Operation.ofRoute (known : Text → Bool) (r : Route) : Operation where
  description := r.description
  operationId := r.operationId
  tags := r.tags
  consumes := [mediaType]
  produces := [mediaType]
  parameters := r.params.map (.ofParam known)
  responses := .ofList (r.responses.map
    (fun s => (Text.Decimal.ofNat s.statusCode, .ofResponse s)))

namespace Assembly

/-- The routes of all files, in order. -/
def routes (files : List FileRecords) : List Route := files.flatMap FileRecords.routes

/-- The models of all files, in order. -/
def models (files : List FileRecords) : List Model := files.flatMap FileRecords.models

def definitions (files : List FileRecords) : OrderedMap Text Definition :=
  .ofList ((models files).map (fun m => (m.name, .ofModel m)))

def pathKey (r : Route) : Text × Text := (convertPath r.path, Text.toLower r.verb)

def insertOperation (paths : OrderedMap Text (OrderedMap Text Operation)) (key : Text × Text)
    (op : Operation) : OrderedMap Text (OrderedMap Text Operation) :=
  paths.insert key.1 (((paths.get? key.1).getD ∅).insert key.2 op)

def paths (known : Text → Bool) (rs : List Route) : OrderedMap Text (OrderedMap Text Operation) :=
  rs.foldl (fun m r => insertOperation m (pathKey r) (.ofRoute known r)) ∅

/-- Declares a tag unless it is declared. -/
def addTag (tags : List TagInfo) (name : Text) : List TagInfo :=
  if tags.any (fun t => decide (t.name = name)) then tags else tags ++ [.bare name]

/-- The declared tags, and after them the tags of routes that are not declared. -/
def tags (declared : List TagInfo) (rs : List Route) : List TagInfo :=
  (rs.flatMap Route.tags).foldl addTag declared

end Assembly

def Document.assemble (m : Metadata) (files : List FileRecords) : Document :=
  let definitions := Assembly.definitions files
  { swagger := m.swagger
    info := m.info
    host := m.host
    basePath := m.basePath
    tags := Assembly.tags m.tags (Assembly.routes files)
    schemes := m.schemes
    paths := Assembly.paths definitions.contains (Assembly.routes files)
    securityDefinitions := m.securityDefinitions
    definitions := definitions }

/-! ## Events -/

namespace Assembly

/-- A warning for each model that takes the place of one in `seen` or before it. -/
def modelEvents (seen : OrderedMap Text Place) : List Model → List Event
  | [] => []
  | m :: ms =>
    ((seen.get? m.name).map (.replacedModel m.name m.place)).toList ++
      modelEvents (seen.insert m.name m.place) ms

/-- A warning for each parameter whose type is not known. -/
def paramEvents (known : Text → Bool) (r : Route) : List Event :=
  r.params.filterMap fun p =>
    match p.type with
    | .primitive _ => none
    | .reference name =>
      if known name then none
      else some (.unknownParamType r.place p.name r.operationId name)

/-- A warning for each response whose schema is not known. -/
def responseEvents (known : Text → Bool) (r : Route) : List Event :=
  r.responses.filterMap fun s =>
    match s.schema with
    | none => none
    | some schema =>
      if known schema.name then none
      else some (.unknownResponseModel r.place s.statusCode r.operationId schema.name)

/-- The warnings about each route; `seen` are the operations listed before. -/
def routeEvents (known : Text → Bool) (seen : OrderedMap (Text × Text) Text) :
    List Route → List Event
  | [] => []
  | r :: rs =>
    paramEvents known r ++ responseEvents known r ++
      ((seen.get? (pathKey r)).map (.replacedOperation r.verb r.path r.place)).toList ++
      routeEvents known (seen.insert (pathKey r) r.operationId) rs

def events (files : List FileRecords) : List Event :=
  let known := (definitions files).contains
  modelEvents ∅ (models files) ++ routeEvents known ∅ (routes files) ++
    [.assembled (paths known (routes files)).size (definitions files).size]

end Assembly

end ApiAnnotations

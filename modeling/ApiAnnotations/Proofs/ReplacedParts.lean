import ApiAnnotations.Extraction
import ApiAnnotations.Proofs.Conservation
import ApiAnnotations.Proofs.Text.Decimal
import Mathlib.Data.List.Basic

/-! # Parts that replace others

The responses of an operation are listed by status code and the properties of a definition by name.
Of several parts of one record with the same key the last one is listed.

* `Operation.get?_responses_iff`, `Definition.get?_properties_iff` : a part is listed exactly if it
  is the last one with its key.
* `Assembly.events_bare` : the log of an assembly is that of the records without these parts, the
  responses of unknown models apart.
* `parts_replaced_silently` puts them together. -/

namespace ApiAnnotations

open Text.Decimal (ofNat)

/-! ## Parts that are listed -/

theorem Text.Decimal.ofNat_inj {m n : Nat} : ofNat m = ofNat n ↔ m = n :=
  ⟨fun h => by rw [← value_ofNat m, h, value_ofNat], fun h => by rw [h]⟩

theorem Primitive.name_inj {p q : Primitive} : p.name = q.name ↔ p = q := by
  cases p <;> cases q <;> decide

namespace Schema

theorem referenceTo_inj {m n : Text} : referenceTo m = referenceTo n ↔ m = n := by
  simp [referenceTo]

theorem arrayOf_inj {m n : Text} : arrayOf m = arrayOf n ↔ m = n := by
  simp [arrayOf, referenceTo_inj]

theorem typed_inj {m n : Text} : typed m = typed n ↔ m = n := by
  simp [typed]

theorem arrayOf_ne_referenceTo (m n : Text) : arrayOf m ≠ referenceTo n := nofun

theorem typed_ne_arrayOf (m n : Text) : typed m ≠ arrayOf n := nofun

theorem typed_ne_referenceTo (m n : Text) : typed m ≠ referenceTo n := nofun

/-- The schema of a response tells what the response refers to. -/
theorem ofResponse_inj {r s : SchemaRef} : ofResponse r = ofResponse s ↔ r = s := by
  refine ⟨fun h => ?_, fun h => by rw [h]⟩
  obtain ⟨m, isArray⟩ := r
  obtain ⟨n, isArray'⟩ := s
  cases isArray with
  | false =>
    cases isArray' with
    | false => exact congrArg (SchemaRef.mk · false) (referenceTo_inj.mp h)
    | true => exact absurd h.symm (arrayOf_ne_referenceTo n m)
  | true =>
    cases isArray' with
    | false => exact absurd h (arrayOf_ne_referenceTo m n)
    | true => exact congrArg (SchemaRef.mk · true) (arrayOf_inj.mp h)

/-- The schema of a field tells the type of the field. -/
theorem ofField_inj {t u : FieldType} : ofField t = ofField u ↔ t = u := by
  refine ⟨fun h => ?_, fun h => by rw [h]⟩
  cases t with
  | primitive p =>
    cases u with
    | primitive q => rw [Primitive.name_inj.mp (typed_inj.mp h)]
    | array n => exact absurd h (typed_ne_arrayOf _ n)
    | object n => exact absurd h (typed_ne_referenceTo _ n)
  | array m =>
    cases u with
    | primitive q => exact absurd h.symm (typed_ne_arrayOf _ m)
    | array n => rw [arrayOf_inj.mp h]
    | object n => exact absurd h (arrayOf_ne_referenceTo m n)
  | object m =>
    cases u with
    | primitive q => exact absurd h.symm (typed_ne_referenceTo _ m)
    | array n => exact absurd h.symm (arrayOf_ne_referenceTo n m)
    | object n => rw [referenceTo_inj.mp h]

end Schema

/-- Two responses with one status code are listed alike only if they are the same. -/
theorem ResponseObject.ofResponse_inj {s t : Response} (hcode : s.statusCode = t.statusCode) :
    ofResponse s = ofResponse t ↔ s = t := by
  refine ⟨fun h => ?_, fun h => by rw [h]⟩
  obtain ⟨hdescription, hschema⟩ := ResponseObject.mk.inj h
  have hinj : Function.Injective Schema.ofResponse := fun _ _ => Schema.ofResponse_inj.mp
  obtain ⟨code, schema, description⟩ := s
  obtain ⟨code', schema', description'⟩ := t
  obtain rfl : code = code' := hcode
  obtain rfl : description = description' := hdescription
  obtain rfl : schema = schema' := Option.map_injective hinj hschema
  rfl

/-- **Responses that are listed** are the last ones with their status codes. -/
theorem Operation.get?_responses_iff (known : Text → Bool) (r : Route) (s : Response) :
    (ofRoute known r).responses.get? (ofNat s.statusCode) = some (.ofResponse s) ↔
      lastWith Response.statusCode s.statusCode r.responses = some s := by
  have hkeys : lastWith (fun t : Response => ofNat t.statusCode) (ofNat s.statusCode) r.responses =
      lastWith Response.statusCode s.statusCode r.responses := by
    simp only [lastWith, Text.Decimal.ofNat_inj]
  rw [get?_responses, hkeys, Option.map_eq_some_iff]
  constructor
  · rintro ⟨t, ht, hlisted⟩
    rw [ht, (ResponseObject.ofResponse_inj (key_of_lastWith ht)).mp hlisted]
  · exact fun h => ⟨s, h, rfl⟩

/-- **Fields that are listed** are the last ones with their names. -/
theorem Definition.get?_properties_iff (m : Model) (f : ModelField) :
    (ofModel m).properties.get? f.name = some (.ofField f.type) ↔
      lastWith ModelField.name f.name m.fields = some f := by
  rw [get?_properties, Option.map_eq_some_iff]
  constructor
  · rintro ⟨g, hg, hlisted⟩
    have hname : g.name = f.name := key_of_lastWith hg
    have htype : g.type = f.type := Schema.ofField_inj.mp hlisted
    rw [hg, show g = f from congrArg₂ ModelField.mk hname htype]
  · exact fun h => ⟨f, h, rfl⟩

/-! ## The log -/

/-- Whether a response refers to a model that is not known. -/
def Response.isUnknown (known : Text → Bool) (s : Response) : Bool :=
  s.schema.any fun x => !known x.name

/-- The route without its responses, those of unknown models apart. -/
def Route.bare (known : Text → Bool) (r : Route) : Route :=
  { r with responses := r.responses.filter (Response.isUnknown known) }

/-- The model without its fields. -/
def Model.bare (m : Model) : Model := { m with fields := [] }

def FileRecords.bare (known : Text → Bool) (f : FileRecords) : FileRecords :=
  { f with routes := f.routes.map (.bare known), models := f.models.map .bare }

namespace Assembly

variable {known : Text → Bool}

theorem routes_map_bare (files : List FileRecords) :
    routes (files.map (.bare known)) = (routes files).map (.bare known) := by
  rw [routes, List.flatMap_map, routes, List.map_flatMap]
  rfl

theorem models_map_bare (files : List FileRecords) :
    models (files.map (.bare known)) = (models files).map .bare := by
  rw [models, List.flatMap_map, models, List.map_flatMap]
  rfl

theorem keys_definitions_bare (files : List FileRecords) :
    (definitions (files.map (.bare known))).keys = (definitions files).keys := by
  rw [definitions, OrderedMap.keys_ofList, definitions, OrderedMap.keys_ofList, models_map_bare,
    List.map_map]
  rfl

theorem contains_definitions_bare (files : List FileRecords) :
    (definitions (files.map (.bare known))).contains = (definitions files).contains := by
  funext n
  rw [Bool.eq_iff_iff, OrderedMap.contains_iff, OrderedMap.contains_iff, keys_definitions_bare]

theorem keys_paths_bare (rs : List Route) :
    (paths known (rs.map (.bare known))).keys = (paths known rs).keys := by
  rw [keys_paths, keys_paths, List.map_map]
  rfl

theorem modelEvents_bare (seen : OrderedMap Text Place) (ms : List Model) :
    modelEvents seen (ms.map .bare) = modelEvents seen ms := by
  induction ms generalizing seen with
  | nil => rfl
  | cons m ms ih =>
    rw [List.map_cons, modelEvents, modelEvents, ih]
    rfl

/-- Only responses of unknown models are reported. -/
theorem responseEvents_bare (r : Route) :
    responseEvents known (r.bare known) = responseEvents known r := by
  unfold responseEvents Route.bare
  rw [List.filterMap_filter]
  refine List.filterMap_congr fun s _ => ?_
  cases hschema : s.schema with
  | none => simp
  | some x => cases hknown : known x.name <;> simp [Response.isUnknown, hschema, hknown]

theorem routeEvents_bare (seen : OrderedMap (Text × Text) Text) (rs : List Route) :
    routeEvents known seen (rs.map (.bare known)) = routeEvents known seen rs := by
  induction rs generalizing seen with
  | nil => rfl
  | cons r rs ih =>
    rw [List.map_cons, routeEvents, routeEvents, ih, responseEvents_bare]
    rfl

/-- **What the log depends on.**  Neither the fields of models nor the responses of known models
or of none change the log. -/
theorem events_bare (files : List FileRecords) :
    events (files.map (.bare (definitions files).contains)) = events files := by
  simp only [events, contains_definitions_bare, models_map_bare, routes_map_bare,
    modelEvents_bare, routeEvents_bare, OrderedMap.size_eq_length_keys, keys_paths_bare,
    keys_definitions_bare]

end Assembly

/-! ## Assembled documents -/

/-- **Replaced parts.**  A response of a route is listed in its operation exactly if it is the last
one of the route with its status code, and a field of a model in its definition exactly if it is the
last one of the model with its name. The log does not tell that others are left out: it is the log
of the records without fields and without responses, those of unknown models apart. -/
theorem parts_replaced_silently (m : Metadata) (files : List FileRecords) :
    let key := fun r : Route => (convertPath r.path, Text.toLower r.verb)
    let d := Document.assemble m files
    (∀ p v r, lastWith key (p, v) (files.flatMap FileRecords.routes) = some r →
      ∃ x, d.operation? p v = some x ∧ ∀ s ∈ r.responses,
        (x.responses.get? (ofNat s.statusCode) = some (.ofResponse s) ↔
          lastWith Response.statusCode s.statusCode r.responses = some s)) ∧
    (∀ n a, lastWith Model.name n (files.flatMap FileRecords.models) = some a →
      ∃ x, d.definitions.get? n = some x ∧ ∀ f ∈ a.fields,
        (x.properties.get? f.name = some (.ofField f.type) ↔
          lastWith ModelField.name f.name a.fields = some f)) ∧
    Assembly.events (files.map (.bare d.definitions.contains)) = Assembly.events files := by
  intro key d
  refine ⟨?_, ?_, Assembly.events_bare files⟩
  · intro p v r hr
    refine ⟨.ofRoute d.definitions.contains r, ?_, fun s _ => Operation.get?_responses_iff _ r s⟩
    exact (Document.operation?_assemble m files p v).trans (congrArg _ hr)
  · intro n a ha
    refine ⟨.ofModel a, ?_, fun f _ => Definition.get?_properties_iff a f⟩
    exact (OrderedMap.get?_ofList _ _ (Assembly.models files) n).trans (congrArg _ ha)

/-- A route with two spellings of one status code. -/
def repeatedCode : Route :=
  ⟨"Get", "GET", "/pads", none, [], [⟨200, none, "Found"⟩, ⟨200, none, "Moved"⟩], [], ⟨"r.go", 3⟩⟩

/-- A model with two fields of one name. -/
def repeatedName : Model :=
  ⟨"Pad", none, ⟨"r.go", 5⟩, [⟨"_", .primitive .integer⟩, ⟨"_", .primitive .string⟩]⟩

def repeatedParts : FileRecords := ⟨"r.go", [repeatedCode], [repeatedName]⟩

/-- A file with these records. -/
def repeatedLines : SourceFile :=
  ⟨"r.go", ["// @route Get GET /pads", "// @return 200 empty Found", "// @return 0200 empty Moved",
    "", "// @model Pad", "type Pad struct \x7b", "_ int", "_ string", "\x7d"]⟩

/-- The first response and the first field are not listed, and there is no warning. -/
theorem repeatedParts_lost :
    let d := Document.assemble .default [repeatedParts]
    FileRecords.ofSource {} repeatedLines = repeatedParts ∧
    (∃ s ∈ repeatedCode.responses, ∃ x, d.operation? "/pads" "get" = some x ∧
      x.responses.get? (ofNat s.statusCode) ≠ some (.ofResponse s)) ∧
    (∃ f ∈ repeatedName.fields, ∃ x, d.definitions.get? "Pad" = some x ∧
      x.properties.get? f.name ≠ some (.ofField f.type)) ∧
    Event.select .warn (Assembly.events [repeatedParts]) = [] := by
  intro d
  have hoperation : d.operation? "/pads" "get" =
      some (.ofRoute d.definitions.contains repeatedCode) :=
    Document.operation?_assemble ..
  have hdefinition : d.definitions.get? "Pad" = some (.ofModel repeatedName) := rfl
  refine ⟨by decide +kernel, ⟨_, List.mem_cons_self, _, hoperation, fun h => ?_⟩,
    ⟨_, List.mem_cons_self, _, hdefinition, fun h => ?_⟩, by decide +kernel⟩
  · exact absurd ((Operation.get?_responses_iff _ repeatedCode _).mp h) (by decide)
  · exact absurd ((Definition.get?_properties_iff repeatedName _).mp h) (by decide)

end ApiAnnotations

import ApiAnnotations.Assembly
import ApiAnnotations.Proofs.OrderedMap

/-! # Records that replace others

Of several models with one name, and of several routes with one path and verb, a document shows the
last one alone, at the place of the first.

* `get?_paths` : the operations of a path are filled from the routes of the path; a path without
  routes is missing.
* `operations_of_last_routes` : which operations a document has, from which routes, and in which
  order.
* `definitions_of_last_models` : the same of definitions and their properties.

The records that a document is made of are those of all files, one file after the other. -/

namespace ApiAnnotations

namespace Assembly

variable {known : Text → Bool} {rs : List Route} {p : Text}

/-! ## Operations -/

/-- The routes of one path of the document. -/
def routesAt (p : Text) (rs : List Route) : List Route :=
  rs.filter fun r => decide (convertPath r.path = p)

/-- The operations of routes with the same path, by verb. -/
def operations (known : Text → Bool) (rs : List Route) : OrderedMap Text Operation :=
  .ofList (rs.map fun r => (Text.toLower r.verb, .ofRoute known r))

theorem routesAt_concat (p : Text) (rs : List Route) (r : Route) :
    routesAt p (rs ++ [r]) =
      if convertPath r.path = p then routesAt p rs ++ [r] else routesAt p rs := by
  unfold routesAt
  rw [List.filter_append]
  by_cases h : convertPath r.path = p
  · simp [h]
  · simp [h]

theorem operations_concat (rs : List Route) (r : Route) :
    operations known (rs ++ [r]) =
      (operations known rs).insert (Text.toLower r.verb) (.ofRoute known r) := by
  unfold operations
  rw [List.map_append, List.map_singleton, OrderedMap.ofList_concat]

theorem keys_operations (known : Text → Bool) (rs : List Route) :
    (operations known rs).keys = (rs.map fun r => Text.toLower r.verb).eraseDups :=
  OrderedMap.keys_ofList _ _ rs

theorem keys_operations_ne_nil (known : Text → Bool) (h : rs ≠ []) :
    (operations known rs).keys ≠ [] := by
  obtain ⟨r, hr⟩ := List.exists_mem_of_ne_nil rs h
  have hverb : Text.toLower r.verb ∈ (operations known rs).keys := by
    rw [keys_operations, List.mem_eraseDups]
    exact List.mem_map_of_mem hr
  exact List.ne_nil_of_mem hverb

theorem paths_concat (rs : List Route) (r : Route) :
    paths known (rs ++ [r]) =
      insertOperation (paths known rs) (pathKey r) (.ofRoute known r) := by
  simp [paths]

theorem get?_insertOperation (m : OrderedMap Text (OrderedMap Text Operation)) (key : Text × Text)
    (op : Operation) (p : Text) :
    (insertOperation m key op).get? p =
      if key.1 = p then some (((m.get? p).getD ∅).insert key.2 op) else m.get? p := by
  unfold insertOperation
  rw [OrderedMap.get?_insert]
  by_cases h : key.1 = p
  · rw [if_pos h, if_pos h, h]
  · rw [if_neg h, if_neg h]

/-- **The operations of a path** are those of its routes. -/
theorem get?_paths (known : Text → Bool) (rs : List Route) (p : Text) :
    (paths known rs).get? p =
      if routesAt p rs = [] then none else some (operations known (routesAt p rs)) := by
  induction rs using List.reverseRecOn with
  | nil => rfl
  | append_singleton rs r ih =>
    rw [paths_concat, get?_insertOperation, ih, routesAt_concat]
    by_cases hp : convertPath r.path = p
    · have hkey : (pathKey r).1 = p := hp
      have hne : ¬ routesAt p rs ++ [r] = [] := by simp
      rw [if_pos hkey, if_pos hp, if_neg hne, operations_concat]
      by_cases hnil : routesAt p rs = []
      · rw [if_pos hnil, hnil]
        rfl
      · rw [if_neg hnil]
        rfl
    · have hkey : ¬ (pathKey r).1 = p := hp
      rw [if_neg hkey, if_neg hp]

theorem get?_paths_eq_some_iff {ops : OrderedMap Text Operation} :
    (paths known rs).get? p = some ops ↔
      routesAt p rs ≠ [] ∧ operations known (routesAt p rs) = ops := by
  rw [get?_paths]
  by_cases hnil : routesAt p rs = []
  · simp [hnil]
  · simp [hnil]

/-- Every operation that is listed is that of a route. -/
theorem mem_paths {ops : OrderedMap Text Operation}
    {x : Operation} (hops : ops ∈ (paths known rs).values) (hx : x ∈ ops.values) :
    ∃ r ∈ rs, x = .ofRoute known r := by
  obtain ⟨p, hp⟩ := OrderedMap.exists_get?_of_mem_values hops
  obtain ⟨-, rfl⟩ := get?_paths_eq_some_iff.mp hp
  obtain ⟨e, he, rfl⟩ := List.mem_map.mp (OrderedMap.mem_values_ofList hx)
  obtain ⟨r, hr, rfl⟩ := List.mem_map.mp he
  exact ⟨r, (List.mem_filter.mp hr).1, rfl⟩

theorem keys_paths (known : Text → Bool) (rs : List Route) :
    (paths known rs).keys = (rs.map fun r => convertPath r.path).eraseDups := by
  induction rs using List.reverseRecOn with
  | nil => rfl
  | append_singleton rs r ih =>
    rw [paths_concat, insertOperation, OrderedMap.keys_insert, ih, List.map_append,
      List.map_singleton, eraseDups_concat]
    simp only [List.mem_eraseDups]
    rfl

/-- Looking up the path among the routes and then the verb is looking up both at once. -/
theorem lastWith_routesAt (p v : Text) (rs : List Route) :
    lastWith (fun r => Text.toLower r.verb) v (routesAt p rs) = lastWith pathKey (p, v) rs := by
  induction rs using List.reverseRecOn with
  | nil => rfl
  | append_singleton rs r ih =>
    rw [routesAt_concat, lastWith_concat]
    by_cases hp : convertPath r.path = p
    · rw [if_pos hp, lastWith_concat, ih]
      simp [pathKey, hp]
    · rw [if_neg hp, ih]
      simp [pathKey, hp]

end Assembly

/-- The operation of a document for a path and a verb. -/
def Document.operation? (d : Document) (p v : Text) : Option Operation :=
  (d.paths.get? p).bind fun operations => operations.get? v

theorem Document.operation?_assemble (m : Metadata) (files : List FileRecords) (p v : Text) :
    (assemble m files).operation? p v =
      (lastWith Assembly.pathKey (p, v) (Assembly.routes files)).map
        (.ofRoute (Assembly.definitions files).contains) := by
  have hpaths := Assembly.get?_paths (Assembly.definitions files).contains
    (Assembly.routes files) p
  rw [← Assembly.lastWith_routesAt, operation?, assemble, hpaths]
  by_cases hnil : Assembly.routesAt p (Assembly.routes files) = []
  · rw [if_pos hnil, hnil]
    rfl
  · rw [if_neg hnil]
    exact OrderedMap.get?_ofList _ _ _ v

/-- **Replaced operations.**  A document has an operation for each path and verb of the routes of
all files, made of the last of them alone. Each path has an operation. Paths, and the verbs of a
path, are in the order of their first routes. -/
theorem operations_of_last_routes (m : Metadata) (files : List FileRecords) :
    let rs := files.flatMap FileRecords.routes
    let key := fun r : Route => (convertPath r.path, Text.toLower r.verb)
    let d := Document.assemble m files
    (∀ p v, (d.operation? p v).isSome ↔ ∃ r ∈ rs, key r = (p, v)) ∧
    (∀ p v, d.operation? p v =
      (lastWith key (p, v) rs).map (.ofRoute d.definitions.contains)) ∧
    (∀ p operations, d.paths.get? p = some operations → operations.keys ≠ []) ∧
    d.paths.keys = (rs.map fun r => convertPath r.path).eraseDups ∧
    ∀ p operations, d.paths.get? p = some operations →
      operations.keys = ((Assembly.routesAt p rs).map fun r => Text.toLower r.verb).eraseDups := by
  intro rs key d
  refine ⟨?_, Document.operation?_assemble m files, ?_, Assembly.keys_paths _ rs, ?_⟩
  · intro p v
    rw [Document.operation?_assemble, Option.isSome_map]
    exact isSome_lastWith
  · intro p operations h
    obtain ⟨hne, rfl⟩ := Assembly.get?_paths_eq_some_iff.mp h
    exact Assembly.keys_operations_ne_nil _ hne
  · intro p operations h
    obtain ⟨-, rfl⟩ := Assembly.get?_paths_eq_some_iff.mp h
    exact Assembly.keys_operations _ _

/-- Two routes on one path, and a model. -/
def petShop : FileRecords :=
  ⟨"shop.go", [
    ⟨"List", "GET", "/pets/:id", some "Lists a pet", [⟨"id", .primitive .integer, .path, true, []⟩],
      [⟨200, some ⟨"Pet", false⟩, "Found"⟩], ["shop", "cats"], ⟨"shop.go", 5⟩⟩,
    ⟨"Drop", "DELETE", "/pets/\x7bid\x7d", none, [], [], [], ⟨"shop.go", 7⟩⟩],
   [⟨"Pet", some "For sale", ⟨"shop.go", 10⟩, [⟨"Id", .primitive .integer⟩, ⟨"Name", .primitive .string⟩]⟩]⟩

/-- A route and a model that take the place of those of the shop, with others in front of them. The
model has two fields of one name. -/
def clinic : FileRecords :=
  ⟨"clinic.go", [
    ⟨"Visit", "PUT", "/visits", none, [], [], ["clinic"], ⟨"clinic.go", 2⟩⟩,
    ⟨"Find", "get", "/pets/\x7bid\x7d", none, [], [], ["cats", "dogs"], ⟨"clinic.go", 5⟩⟩],
   [⟨"Vet", none, ⟨"clinic.go", 8⟩, []⟩,
    ⟨"Pet", none, ⟨"clinic.go", 12⟩, [⟨"Name", .array "Vet"⟩, ⟨"Weight", .primitive .number⟩,
      ⟨"Name", .primitive .string⟩, ⟨"Vets", .array "Vet"⟩]⟩]⟩

/-- The second file replaces an operation of the first. It keeps its place among the paths and the
verbs, and nothing of the first one is left in it. -/
theorem operations_of_last_routes_clinic :
    let d := Document.assemble .default [petShop, clinic]
    (∀ p v, (d.operation? p v).isSome ↔
      (p, v) ∈ [("/pets/\x7bid\x7d".toList, "get".toList),
        ("/pets/\x7bid\x7d".toList, "delete".toList), ("/visits".toList, "put".toList)]) ∧
    d.operation? "/pets/\x7bid\x7d" "get" =
      some ⟨none, "Find", ["cats", "dogs"], ["application/json"], ["application/json"], [], ∅⟩ ∧
    d.paths.keys = ["/pets/\x7bid\x7d".toList, "/visits".toList] ∧
    (d.paths.get? "/pets/\x7bid\x7d").map OrderedMap.keys =
      some ["get".toList, "delete".toList] := by
  intro d
  obtain ⟨hsome, hlast, -, hpaths, hverbs⟩ :=
    operations_of_last_routes .default [petShop, clinic]
  refine ⟨fun p v => ?_, ?_, hpaths.trans (by decide +kernel), ?_⟩
  · have hkeys : (([petShop, clinic].flatMap FileRecords.routes).map Assembly.pathKey).eraseDups =
        [("/pets/\x7bid\x7d".toList, "get".toList), ("/pets/\x7bid\x7d".toList, "delete".toList),
          ("/visits".toList, "put".toList)] := by
      decide +kernel
    rw [hsome, ← hkeys, List.mem_eraseDups]
    exact List.mem_map.symm
  · have hroute : lastWith Assembly.pathKey ("/pets/\x7bid\x7d", "get")
        ([petShop, clinic].flatMap FileRecords.routes) =
          some ⟨"Find", "get", "/pets/\x7bid\x7d", none, [], [], ["cats", "dogs"],
            ⟨"clinic.go", 5⟩⟩ := by
      decide +kernel
    exact (hlast _ _).trans (congrArg _ hroute)
  · have hmem : "/pets/\x7bid\x7d".toList ∈ d.paths.keys := by
      rw [hpaths]
      decide +kernel
    obtain ⟨operations, hoperations⟩ :=
      Option.isSome_iff_exists.mp ((OrderedMap.contains_iff _ _).mpr hmem)
    have hkeys := (hverbs _ operations hoperations).trans
      (show _ = ["get".toList, "delete".toList] by decide +kernel)
    exact (congrArg _ hoperations).trans (congrArg some hkeys)

/-! ## Responses and properties -/

theorem Operation.keys_responses (known : Text → Bool) (r : Route) :
    (ofRoute known r).responses.keys =
      (r.responses.map fun s => Text.Decimal.ofNat s.statusCode).eraseDups :=
  OrderedMap.keys_ofList _ _ r.responses

theorem Operation.get?_responses (known : Text → Bool) (r : Route) (code : Text) :
    (ofRoute known r).responses.get? code =
      (lastWith (fun s => Text.Decimal.ofNat s.statusCode) code r.responses).map .ofResponse :=
  OrderedMap.get?_ofList _ _ r.responses code

theorem Definition.keys_properties (m : Model) :
    (ofModel m).properties.keys = (m.fields.map ModelField.name).eraseDups :=
  OrderedMap.keys_ofList _ _ m.fields

theorem Definition.get?_properties (m : Model) (name : Text) :
    (ofModel m).properties.get? name =
      (lastWith ModelField.name name m.fields).map fun f => .ofField f.type :=
  OrderedMap.get?_ofList _ _ m.fields name

/-! ## Definitions -/

/-- **Replaced definitions.**  A document has a definition for each name of the models of all files,
in the order of their first models and made of the last one alone. The definition of a model says
its description; its properties are in the order of their first fields, and each has the type of the
last one, where models are referred to by name. -/
theorem definitions_of_last_models (m : Metadata) (files : List FileRecords) :
    let ms := files.flatMap FileRecords.models
    let ds := (Document.assemble m files).definitions
    ds.keys = (ms.map Model.name).eraseDups ∧
    (∀ n, ds.get? n = (lastWith Model.name n ms).map .ofModel) ∧
    (∀ x, (Definition.ofModel x).type = "object" ∧
      (Definition.ofModel x).description = x.description ∧
      (Definition.ofModel x).properties.keys = (x.fields.map ModelField.name).eraseDups ∧
      ∀ n, (Definition.ofModel x).properties.get? n =
        (lastWith ModelField.name n x.fields).map fun f => .ofField f.type) ∧
    Schema.ofField (.primitive .integer) = .mk (some "integer".toList) none none ∧
    Schema.ofField (.primitive .number) = .mk (some "number".toList) none none ∧
    Schema.ofField (.primitive .string) = .mk (some "string".toList) none none ∧
    Schema.ofField (.primitive .boolean) = .mk (some "boolean".toList) none none ∧
    (∀ n, Schema.ofField (.array n) =
      .mk (some "array") none (some (.mk none (some ("#/definitions/".toList ++ n)) none))) ∧
    ∀ n, Schema.ofField (.object n) = .mk none (some ("#/definitions/".toList ++ n)) none := by
  intro ms ds
  refine ⟨OrderedMap.keys_ofList _ _ ms, ?_, ?_, rfl, rfl, rfl, rfl, fun n => rfl, fun n => rfl⟩
  · intro n
    exact OrderedMap.get?_ofList _ _ ms n
  · intro x
    refine ⟨rfl, rfl, OrderedMap.keys_ofList _ _ x.fields, ?_⟩
    intro n
    exact OrderedMap.get?_ofList _ _ x.fields n

/-- The second file replaces a definition of the first. It keeps its place, and of its properties
those of the first file are gone. -/
theorem definitions_of_last_models_clinic :
    let ds := (Document.assemble .default [petShop, clinic]).definitions
    ds.keys = ["Pet".toList, "Vet".toList] ∧
    ∃ pet, ds.get? "Pet" = some pet ∧ pet.description = none ∧
      pet.properties.keys = ["Name".toList, "Weight".toList, "Vets".toList] ∧
      pet.properties.get? "Name" = some (.mk (some "string".toList) none none) ∧
      pet.properties.get? "Vets" = some (.mk (some "array".toList) none
        (some (.mk none (some "#/definitions/Vet".toList) none))) := by
  intro ds
  obtain ⟨hkeys, hlast, hmodel, -, -, hstring, -, harray, -⟩ :=
    definitions_of_last_models .default [petShop, clinic]
  let pet : Model := ⟨"Pet", none, ⟨"clinic.go", 12⟩, [⟨"Name", .array "Vet"⟩,
    ⟨"Weight", .primitive .number⟩, ⟨"Name", .primitive .string⟩, ⟨"Vets", .array "Vet"⟩]⟩
  have hpet : lastWith Model.name "Pet" ([petShop, clinic].flatMap FileRecords.models) =
      some pet := by
    decide +kernel
  obtain ⟨-, hdescription, hproperties, htypes⟩ := hmodel pet
  refine ⟨hkeys.trans (by decide +kernel), .ofModel pet, ?_, hdescription, ?_, ?_, ?_⟩
  · exact (hlast _).trans (congrArg _ hpet)
  · exact hproperties.trans (by decide)
  · exact (htypes _).trans (congrArg some hstring)
  · exact (htypes _).trans (congrArg some (harray "Vet"))

end ApiAnnotations

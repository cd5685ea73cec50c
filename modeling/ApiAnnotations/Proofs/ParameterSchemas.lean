import ApiAnnotations.Proofs.Replacement
import Mathlib.Data.List.Forall2

/-! # What parameters refer to

A parameter of a document either has a type and says whether it is required, or has a schema that
refers to a definition of the same document.

* `Parameter.Resolves` : what a parameter says, given the names of the definitions.
* `resolves_ofParam` : parameters are made so.
* `parameters_resolve` : it holds of all operations of a document, wherever the definitions come
  from, so that no reference leads nowhere. -/

namespace ApiAnnotations

/-- What a parameter of a document says about the one it was made of: its type, or a reference if
its type is one of the names. -/
structure Parameter.Resolves (names : List Text) (p : Param) (q : Parameter) : Prop where
  type_or_schema : q.type.isSome ≠ q.schema.isSome
  required_iff : q.required.isSome ↔ q.type.isSome
  schema_iff : q.schema.isSome ↔ ∃ n ∈ names, p.type = .reference n
  schema_eq : ∀ n ∈ names, p.type = .reference n →
    q.schema = some (.mk none (some ("#/definitions/".toList ++ n)) none)
  required_eq : q.schema = none → q.required = some p.required
  primitive_eq : ∀ t, p.type = .primitive t → q.type = some t.name
  unresolved_eq : ∀ n, n ∉ names → p.type = .reference n → q.type = some n
  name_eq : q.name = p.name
  location_eq : q.location = p.location.documentName
  description_eq : q.description = p.description

namespace Parameter

variable {known : Text → Bool} {p : Param}

theorem ofParam_primitive {t : Primitive} (h : p.type = .primitive t) :
    ofParam known p =
      ⟨p.name, p.location.documentName, p.description, some p.required, some t.name, none⟩ := by
  unfold ofParam
  simp [h, ParamType.name]

theorem ofParam_known {n : Text} (h : p.type = .reference n) (hn : known n = true) :
    ofParam known p =
      ⟨p.name, p.location.documentName, p.description, none, none, some (.referenceTo n)⟩ := by
  unfold ofParam
  simp [h, hn]

theorem ofParam_unknown {n : Text} (h : p.type = .reference n) (hn : known n = false) :
    ofParam known p =
      ⟨p.name, p.location.documentName, p.description, some p.required, some n, none⟩ := by
  unfold ofParam
  simp [h, hn, ParamType.name]

theorem resolves_ofParam {names : List Text} (hknown : ∀ n, known n = true ↔ n ∈ names)
    (p : Param) : Resolves names p (ofParam known p) := by
  cases htype : p.type with
  | primitive t =>
    rw [ofParam_primitive htype]
    constructor <;> simp [htype]
  | reference n =>
    by_cases hn : n ∈ names
    · rw [ofParam_known htype ((hknown n).mpr hn)]
      constructor
      case schema_iff => simp [htype, hn]
      case schema_eq =>
        intro n' _ h
        rw [htype, ParamType.reference.injEq] at h
        rw [← h]
        rfl
      case unresolved_eq =>
        intro n' hn' h
        rw [htype, ParamType.reference.injEq] at h
        exact absurd (h ▸ hn) hn'
      all_goals simp [htype]
    · rw [ofParam_unknown htype (Bool.eq_false_iff.mpr fun h => hn ((hknown n).mp h))]
      constructor
      case schema_iff => simp [htype, hn]
      case schema_eq =>
        intro n' hn' h
        rw [htype, ParamType.reference.injEq] at h
        exact absurd (h ▸ hn') hn
      all_goals simp [htype]

end Parameter

/-- **Parameters resolve.**  An operation of a document has the parameters of the last route with
its path and verb, in order. Each has either a type or a schema, and with a type it says whether it
is required. It has a schema if its type is the name of a definition of the document; the schema is
then a reference to it, and so every reference leads to a definition. -/
theorem parameters_resolve (m : Metadata) (files : List FileRecords) {p v : Text} {op : Operation}
    (h : (Document.assemble m files).operation? p v = some op) :
    let key := fun r : Route => (convertPath r.path, Text.toLower r.verb)
    let names := (Document.assemble m files).definitions.keys
    (∃ r, lastWith key (p, v) (files.flatMap FileRecords.routes) = some r ∧
      List.Forall₂ (Parameter.Resolves names) r.params op.parameters) ∧
    ∀ q ∈ op.parameters, ∀ s, q.schema = some s →
      ∃ n ∈ names, s.reference = some ("#/definitions/".toList ++ n) := by
  intro key names
  rw [Document.operation?_assemble, Option.map_eq_some_iff] at h
  obtain ⟨r, hr, rfl⟩ := h
  have hknown : ∀ n, (Assembly.definitions files).contains n = true ↔ n ∈ names :=
    OrderedMap.contains_iff _
  refine ⟨⟨r, hr, ?_⟩, ?_⟩
  · rw [Operation.ofRoute, List.forall₂_map_right_iff, List.forall₂_same]
    exact fun x _ => Parameter.resolves_ofParam hknown x
  · intro q hq s hs
    obtain ⟨x, -, rfl⟩ := List.mem_map.mp hq
    have hresolves := Parameter.resolves_ofParam hknown x
    obtain ⟨n, hn, htype⟩ := hresolves.schema_iff.mp (Option.isSome_of_eq_some hs)
    have hschema := hresolves.schema_eq n hn htype
    rw [hs, Option.some.injEq] at hschema
    exact ⟨n, hn, by rw [hschema]; rfl⟩

/-- A route that is replaced, and the route that replaces it, with parameters of a primitive type,
of a model declared twice in another file, and of a type that is no model. -/
def keepOrder : FileRecords :=
  .ofSource {} ⟨"routes.go", ["// @route Old PUT /orders/:id", "// @param id Order", "",
    "// @route Keep put /orders/\x7bid\x7d", "// @param id int in:path",
    "// @param order Order in:body", "// @param note Note optional"]⟩

def orderTwice : FileRecords :=
  .ofSource {} ⟨"models.go", ["// @model Order", "\tId int", "\x7d", "// @model Order", "\x7d"]⟩

theorem parameters_resolve_keepOrder :
    ∃ op, (Document.assemble .default [keepOrder, orderTwice]).operation?
        "/orders/\x7bid\x7d" "put" = some op ∧
      (let key := fun r : Route => (convertPath r.path, Text.toLower r.verb)
       let names := (Document.assemble .default [keepOrder, orderTwice]).definitions.keys
       (∃ r, lastWith key ("/orders/\x7bid\x7d", "put")
            ([keepOrder, orderTwice].flatMap FileRecords.routes) = some r ∧
          List.Forall₂ (Parameter.Resolves names) r.params op.parameters) ∧
        ∀ q ∈ op.parameters, ∀ s, q.schema = some s →
          ∃ n ∈ names, s.reference = some ("#/definitions/".toList ++ n)) ∧
      op.parameters.map (fun q => (q.type, q.required, q.schema.isSome)) =
        [(some "integer".toList, some true, false), (none, none, true),
          (some "Note".toList, some false, false)] := by
  obtain ⟨op, hop⟩ := Option.isSome_iff_exists.mp
    (show ((Document.assemble .default [keepOrder, orderTwice]).operation?
      "/orders/\x7bid\x7d" "put").isSome = true by decide +kernel)
  have hshown : ((Document.assemble .default [keepOrder, orderTwice]).operation?
      "/orders/\x7bid\x7d" "put").map
        (fun op => op.parameters.map fun q => (q.type, q.required, q.schema.isSome)) =
      some [(some "integer".toList, some true, false), (none, none, true),
        (some "Note".toList, some false, false)] := by
    decide +kernel
  rw [hop] at hshown
  exact ⟨op, hop, parameters_resolve .default [keepOrder, orderTwice] hop,
    Option.some.inj hshown⟩

end ApiAnnotations

import ApiAnnotations.Document
import ApiAnnotations.Proofs.Metadata

/-! # Reading documents back

A schema contains schemas, so whether it is read back depends on the depth that is left. Every other
record is read back if its schemas and free-form values are.

* `Schema.yields` : a schema that was read is read back.
* `Operation.yields`, `Definition.yields` : so are operations and definitions.
* `Document.readsBack`, `Document.yields` : so are documents, if the numbers of their security
  definitions are integers. -/

namespace ApiAnnotations

open Json (Codec Field Shape readsBack_text readsBack_bool readsBack_list readsBack_map)

/-! ## Schemas -/

namespace Schema

/-- A schema is written by its fields, however its items are read. -/
theorem toJson_eq_write (inner : Json.Reader Schema) (s : Schema) :
    s.toJson = (shape inner).write s := by
  obtain ⟨type, reference, items⟩ := s
  cases type <;> cases reference <;> cases items <;> rw [toJson] <;> rfl

theorem toJson_ne_null (s : Schema) : Json.Draft.ofTree s.toJson ≠ .null := by
  rw [toJson_eq_write fun _ => read 0]
  nofun

theorem readsBack_succ {depth : Nat} {s : Schema} (h : ∀ i ∈ s.items, codec.ReadsBack depth i) :
    codec.ReadsBack (depth + 1) s := by
  have hkeys : ((shape fun _ => read depth).fields.map Field.key).Nodup := by
    change (["type".toList, "$ref".toList, "items".toList] : List Text).Nodup
    decide
  have hshape : (shape fun _ => read depth).codec.ReadsBack (depth + 1) s := by
    obtain ⟨type, reference, items⟩ := s
    exact Shape.readsBack hkeys <|
      .cons (Field.restores_optional nofun (fun _ _ => readsBack_text ..) rfl) <|
      .cons (Field.restores_optional nofun (fun _ _ => readsBack_text ..) rfl) <|
      .cons (Field.restores_optional toJson_ne_null h rfl) .nil
  have hwrite := toJson_eq_write (fun _ => read depth) s
  change read (depth + 1) (Json.Draft.ofTree s.toJson) = .ok s
  rw [hwrite]
  exact hshape

/-- **A schema that was read is read back.** -/
theorem yields (depth : Nat) : codec.read.Yields depth (codec.ReadsBack depth) := by
  induction depth with
  | zero =>
    intro d s hread
    change read 0 d = .ok s at hread
    cases d <;> cases hread
  | succ depth ih =>
    have hitems : (shape fun _ => read depth).read.Yields (depth + 1)
        fun s => ∀ i ∈ s.items, codec.ReadsBack depth i :=
      Shape.yields nofun
        ⟨Field.keeps_other fun _ _ h => h, Field.keeps_other fun _ _ h => h,
          Field.keeps_of (Json.Reader.Yields.optional ih) fun _ _ h _ => h⟩
    exact hitems.mono fun s => readsBack_succ

end Schema

/-! ## Operations -/

theorem Parameter.readsBack {depth : Nat} {p : Parameter}
    (h : ∀ s ∈ p.schema, Schema.codec.ReadsBack depth s) :
    Parameter.shape.codec.ReadsBack (depth + 1) p :=
  Shape.readsBack (by decide) <|
    .cons (Field.restores_required (readsBack_text ..)) <|
    .cons (Field.restores_required (readsBack_text ..)) <|
    .cons (Field.restores_unlessEmpty (readsBack_text ..) rfl) <|
    .cons (Field.restores_optional nofun (fun b _ => readsBack_bool _ b) rfl) <|
    .cons (Field.restores_optional nofun (fun s _ => readsBack_text _ s) rfl) <|
    .cons (Field.restores_optional Schema.toJson_ne_null h rfl) .nil

theorem Parameter.yields (depth : Nat) :
    Parameter.shape.read.Yields (depth + 1) (Parameter.shape.codec.ReadsBack (depth + 1)) := by
  have hschema : Parameter.shape.read.Yields (depth + 1)
      fun p => ∀ s ∈ p.schema, Schema.codec.ReadsBack depth s :=
    Shape.yields nofun
      ⟨Field.keeps_other fun _ _ h => h, Field.keeps_other fun _ _ h => h,
        Field.keeps_other fun _ _ h => h, Field.keeps_other fun _ _ h => h,
        Field.keeps_other fun _ _ h => h,
        Field.keeps_of (Schema.yields depth).optional fun _ _ h _ => h⟩
  exact hschema.mono fun p => Parameter.readsBack

theorem ResponseObject.readsBack {depth : Nat} {r : ResponseObject}
    (h : ∀ s ∈ r.schema, Schema.codec.ReadsBack depth s) :
    ResponseObject.shape.codec.ReadsBack (depth + 1) r :=
  Shape.readsBack (by decide) <|
    .cons (Field.restores_required (readsBack_text ..)) <|
    .cons (Field.restores_optional Schema.toJson_ne_null h rfl) .nil

theorem ResponseObject.yields (depth : Nat) :
    ResponseObject.shape.read.Yields (depth + 1)
      (ResponseObject.shape.codec.ReadsBack (depth + 1)) := by
  have hschema : ResponseObject.shape.read.Yields (depth + 1)
      fun r => ∀ s ∈ r.schema, Schema.codec.ReadsBack depth s :=
    Shape.yields nofun
      ⟨Field.keeps_other fun _ _ h => h,
        Field.keeps_of (Schema.yields depth).optional fun _ _ h _ => h⟩
  exact hschema.mono fun r => ResponseObject.readsBack

theorem Operation.readsBack {depth : Nat} {op : Operation}
    (hparameters : ∀ p ∈ op.parameters, Parameter.shape.codec.ReadsBack (depth + 1) p)
    (hresponses : ∀ r ∈ op.responses.values,
      ResponseObject.shape.codec.ReadsBack (depth + 1) r) :
    Operation.shape.codec.ReadsBack (depth + 3) op :=
  Shape.readsBack (by decide) <|
    .cons (Field.restores_optional nofun (fun s _ => readsBack_text _ s) rfl) <|
    .cons (Field.restores_required (readsBack_text ..)) <|
    .cons (Field.restores_unlessEmpty (readsBack_list fun _ _ => readsBack_text ..) rfl) <|
    .cons (Field.restores_required (readsBack_list fun _ _ => readsBack_text ..)) <|
    .cons (Field.restores_required (readsBack_list fun _ _ => readsBack_text ..)) <|
    .cons (Field.restores_unlessEmpty (readsBack_list hparameters) rfl) <|
    .cons (Field.restores_required (readsBack_map hresponses)) .nil

/-- **An operation that was read is read back.** -/
theorem Operation.yields (depth : Nat) :
    Operation.shape.read.Yields (depth + 3) (Operation.shape.codec.ReadsBack (depth + 3)) := by
  have hparts : Operation.shape.read.Yields (depth + 3) fun op =>
      (∀ p ∈ op.parameters, Parameter.shape.codec.ReadsBack (depth + 1) p) ∧
        ∀ r ∈ op.responses.values, ResponseObject.shape.codec.ReadsBack (depth + 1) r :=
    Shape.yields ⟨nofun, nofun⟩
      ⟨Field.keeps_other fun _ _ h => h, Field.keeps_other fun _ _ h => h,
        Field.keeps_other fun _ _ h => h, Field.keeps_other fun _ _ h => h,
        Field.keeps_other fun _ _ h => h,
        Field.keeps_of (Parameter.yields depth).list fun _ _ hps h => ⟨hps, h.2⟩,
        Field.keeps_of (ResponseObject.yields depth).map fun _ _ hrs h => ⟨h.1, hrs⟩⟩
  exact hparts.mono fun op h => Operation.readsBack h.1 h.2

/-! ## Definitions -/

theorem Definition.readsBack {depth : Nat} {x : Definition}
    (h : ∀ s ∈ x.properties.values, Schema.codec.ReadsBack depth s) :
    Definition.shape.codec.ReadsBack (depth + 2) x :=
  Shape.readsBack (by decide) <|
    .cons (Field.restores_required (readsBack_text ..)) <|
    .cons (Field.restores_optional nofun (fun s _ => readsBack_text _ s) rfl) <|
    .cons (Field.restores_required (readsBack_map h)) .nil

/-- **A definition that was read is read back.** -/
theorem Definition.yields (depth : Nat) :
    Definition.shape.read.Yields (depth + 2) (Definition.shape.codec.ReadsBack (depth + 2)) := by
  have hproperties : Definition.shape.read.Yields (depth + 2)
      fun x => ∀ s ∈ x.properties.values, Schema.codec.ReadsBack depth s :=
    Shape.yields nofun
      ⟨Field.keeps_other fun _ _ h => h, Field.keeps_other fun _ _ h => h,
        Field.keeps_of (Schema.yields depth).map fun _ _ h _ => h⟩
  exact hproperties.mono fun x => Definition.readsBack

/-! ## Documents -/

namespace Document

/-- The operations and definitions of a document are read back, and so are its free-form values if
their numbers are integers. -/
def PartsReadBack (depth : Nat) (d : Document) : Prop :=
  (∀ ops ∈ d.paths.values, ∀ op ∈ ops.values, Operation.shape.codec.ReadsBack (depth + 3) op) ∧
    FreeForm (depth + 4) d.securityDefinitions ∧
    ∀ x ∈ d.definitions.values, Definition.shape.codec.ReadsBack (depth + 4) x

theorem readsBack {depth : Nat} {d : Document} (h : d.PartsReadBack depth)
    (hint : ∀ v ∈ d.securityDefinitions.values, v.Integral) :
    Document.shape.codec.ReadsBack (depth + 6) d :=
  Shape.readsBack (by decide) <|
    .cons (Field.restores_required (readsBack_text ..)) <|
    .cons (Field.restores_required (Info.readsBack ..)) <|
    .cons (Field.restores_unlessEmpty (readsBack_text ..) rfl) <|
    .cons (Field.restores_unlessEmpty (readsBack_text ..) rfl) <|
    .cons (Field.restores_defaulted (readsBack_list fun t _ => TagInfo.readsBack _ t)) <|
    .cons (Field.restores_unlessEmpty (readsBack_list fun _ _ => readsBack_text ..) rfl) <|
    .cons (Field.restores_required (readsBack_map fun ops hops => readsBack_map (h.1 ops hops))) <|
    .cons (Field.restores_unlessEmptyMap (h.2.1.readsBack hint) rfl) <|
    .cons (Field.restores_required (readsBack_map h.2.2)) .nil

/-- **The parts of a document that was read are read back.** -/
theorem yields (depth : Nat) :
    Document.shape.read.Yields (depth + 6) (PartsReadBack depth) :=
  Shape.yields ⟨nofun, FreeForm.empty _, nofun⟩
    ⟨Field.keeps_other fun _ _ h => h, Field.keeps_other fun _ _ h => h,
      Field.keeps_other fun _ _ h => h, Field.keeps_other fun _ _ h => h,
      Field.keeps_other fun _ _ h => h, Field.keeps_other fun _ _ h => h,
      Field.keeps_of (Operation.yields depth).map.map fun _ _ hops h => ⟨hops, h.2⟩,
      Field.keeps_of (FreeForm.yields _) fun _ _ hsecurity h => ⟨h.1, hsecurity, h.2.2⟩,
      Field.keeps_of (Definition.yields _).map fun _ _ hxs h => ⟨h.1, h.2.1, hxs⟩⟩

end Document

end ApiAnnotations

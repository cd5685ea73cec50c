import ApiAnnotations.Proofs.Document
import ApiAnnotations.Proofs.Replacement

/-! # Reading undoes writing

* `Document.assemble_partsReadBack` : the parts of an assembled document are read back, since its
  schemas are at most two deep.
* `Document.Obtained` : documents that were read from a text, or assembled from metadata that were.
* `ofJson_toJson` : metadata that were read, and documents that were obtained, are read from the
  text that is written for them, and this text is written again. -/

namespace ApiAnnotations

open Json (Codec Reader)

/-! ## Assembled documents -/

namespace Schema

theorem readsBack_flat {depth : Nat} {s : Schema} (h : s.items = none) :
    codec.ReadsBack (depth + 1) s :=
  readsBack_succ (by rw [h]; nofun)

theorem readsBack_referenceTo (depth : Nat) (model : Text) :
    codec.ReadsBack (depth + 1) (referenceTo model) :=
  readsBack_flat rfl

theorem readsBack_arrayOf (depth : Nat) (model : Text) :
    codec.ReadsBack (depth + 2) (arrayOf model) := by
  refine readsBack_succ fun i hi => ?_
  obtain rfl : referenceTo model = i := Option.some.inj hi
  exact readsBack_referenceTo depth model

theorem readsBack_ofField (depth : Nat) (t : FieldType) :
    codec.ReadsBack (depth + 2) (ofField t) := by
  cases t with
  | primitive p => exact readsBack_flat rfl
  | array model => exact readsBack_arrayOf depth model
  | object model => exact readsBack_referenceTo (depth + 1) model

theorem readsBack_ofResponse (depth : Nat) (r : SchemaRef) :
    codec.ReadsBack (depth + 2) (ofResponse r) := by
  unfold ofResponse
  split
  · exact readsBack_arrayOf depth r.name
  · exact readsBack_referenceTo (depth + 1) r.name

end Schema

theorem Parameter.readsBack_ofParam (depth : Nat) (known : Text → Bool) (p : Param) :
    Parameter.shape.codec.ReadsBack (depth + 2) (ofParam known p) := by
  refine Parameter.readsBack fun s hs => ?_
  unfold ofParam at hs
  split at hs
  · cases hs
  · next name _ =>
    split at hs
    · obtain rfl : Schema.referenceTo name = s := Option.some.inj hs
      exact Schema.readsBack_referenceTo depth name
    · cases hs

theorem ResponseObject.readsBack_ofResponse (depth : Nat) (r : Response) :
    ResponseObject.shape.codec.ReadsBack (depth + 3) (ofResponse r) := by
  refine ResponseObject.readsBack fun s hs => ?_
  obtain ⟨schema, -, rfl⟩ := Option.map_eq_some_iff.mp hs
  exact Schema.readsBack_ofResponse depth schema

theorem Operation.readsBack_ofRoute (depth : Nat) (known : Text → Bool) (r : Route) :
    Operation.shape.codec.ReadsBack (depth + 5) (ofRoute known r) := by
  apply Operation.readsBack
  · intro p hp
    obtain ⟨param, -, rfl⟩ := List.mem_map.mp hp
    exact Parameter.readsBack_ofParam (depth + 1) known param
  · intro x hx
    obtain ⟨e, he, rfl⟩ := List.mem_map.mp (OrderedMap.mem_values_ofList hx)
    obtain ⟨s, -, rfl⟩ := List.mem_map.mp he
    exact ResponseObject.readsBack_ofResponse depth s

theorem Definition.readsBack_ofModel (depth : Nat) (m : Model) :
    Definition.shape.codec.ReadsBack (depth + 4) (ofModel m) := by
  refine Definition.readsBack fun s hs => ?_
  obtain ⟨e, he, rfl⟩ := List.mem_map.mp (OrderedMap.mem_values_ofList hs)
  obtain ⟨f, -, rfl⟩ := List.mem_map.mp he
  exact Schema.readsBack_ofField depth f.type

namespace Document

/-- The parts of an assembled document are read back. -/
theorem assemble_partsReadBack {depth : Nat} {m : Metadata} (files : List FileRecords)
    (h : FreeForm (depth + 6) m.securityDefinitions) :
    (assemble m files).PartsReadBack (depth + 2) := by
  refine ⟨?_, h, ?_⟩
  · intro ops hops op hop
    obtain ⟨r, -, rfl⟩ := Assembly.mem_paths hops hop
    exact Operation.readsBack_ofRoute depth _ r
  · intro x hx
    obtain ⟨e, he, rfl⟩ := List.mem_map.mp (OrderedMap.mem_values_ofList hx)
    obtain ⟨model, -, rfl⟩ := List.mem_map.mp he
    exact Definition.readsBack_ofModel (depth + 2) model

/-- Documents that were read from a text, or assembled from metadata that were. -/
inductive Obtained : Document → Prop
  | read {s : Text} {d : Document} (h : ofJson s = .ok d) : Obtained d
  | assembled {s : Text} {m : Metadata} (h : Metadata.ofJson s = .ok m)
      (files : List FileRecords) : Obtained (assemble m files)

end Document

/-! ## Texts -/

/-- A value that a text gives was read from a draft. -/
theorem Json.Reader.Yields.run {α : Type} {r : Reader α} {P : α → Prop}
    (h : r.Yields Json.maxDepth P) {s : Text} {a : α} (hrun : r.run s = .ok a) : P a := by
  rw [Reader.run] at hrun
  generalize Draft.ofText s = parsed at hrun
  obtain ⟨d, rest⟩ := parsed
  cases hread : r maxDepth d with
  | error f => simp [hread] at hrun
  | ok b =>
    simp only [hread] at hrun
    split at hrun
    · cases hrun
      exact h d a hread
    · cases hrun

/-- A value that is read back from its draft is read from its text. -/
theorem Json.Codec.ReadsBack.run {α : Type} {c : Codec α} {a : α}
    (h : c.ReadsBack Json.maxDepth a) : c.read.run (c.write a).pretty = .ok a := by
  exact (c.read.run_pretty _).trans h

/-- Metadata that were read are read back. -/
theorem Metadata.ofJson_toJson {s : Text} {m : Metadata} (h : ofJson s = .ok m)
    (hint : ∀ v ∈ m.securityDefinitions.values, v.Integral) : ofJson m.toJson = .ok m :=
  (readsBack ((yields 123).run h) hint).run

namespace Document

theorem Obtained.partsReadBack {d : Document} (h : d.Obtained) : d.PartsReadBack 121 := by
  cases h with
  | read h => exact (yields 121).run h
  | assembled h files => exact assemble_partsReadBack files ((Metadata.yields 123).run h)

/-- Documents that were obtained are read back. -/
theorem Obtained.ofJson_toJson {d : Document} (h : d.Obtained)
    (hint : ∀ v ∈ d.securityDefinitions.values, v.Integral) : ofJson d.toJson = .ok d :=
  (readsBack h.partsReadBack hint).run

end Document

/-- **Reading undoes writing.** -/
theorem reading_undoes_writing :
    (∀ s m, Metadata.ofJson s = .ok m → (∀ v ∈ m.securityDefinitions.values, v.Integral) →
      Metadata.ofJson m.toJson = .ok m ∧
        (Metadata.ofJson m.toJson).map Metadata.toJson = .ok m.toJson) ∧
      ∀ d : Document, d.Obtained → (∀ v ∈ d.securityDefinitions.values, v.Integral) →
        Document.ofJson d.toJson = .ok d ∧
          (Document.ofJson d.toJson).map Document.toJson = .ok d.toJson := by
  constructor
  · intro s m hm hint
    have hread := Metadata.ofJson_toJson hm hint
    exact ⟨hread, by rw [hread]; rfl⟩
  · intro d hd hint
    have hread := hd.ofJson_toJson hint
    exact ⟨hread, by rw [hread]; rfl⟩

/-- Metadata with escapes in a title, and with free-form values: a key given twice, members out of
order, and the greatest and a negative integer. -/
def securedText : Text :=
  "\x7b\"info\": \x7b\"title\": \"A\\u0009\\/\"\x7d, \"securityDefinitions\": \x7b".toList ++
    "\"key\": 1, \"basic\": true, \"key\": \x7b\"type\": \"apiKey\", ".toList ++
    "\"in\": [-1, 18446744073709551615, null]\x7d\x7d\x7d".toList

/-- A model with an array, and a route that returns it. -/
def securedFile : FileRecords :=
  .ofSource {} ⟨"orders.go", ["// @model Order", "type Order struct \x7b", "\tItems []Item", "\x7d",
    "// @route List GET /orders", "// @return 200 []Order all"]⟩

theorem reading_undoes_writing_secured :
    ∃ m, Metadata.ofJson securedText = .ok m ∧
      (∀ v ∈ m.securityDefinitions.values, v.Integral) ∧
      m.securityDefinitions.keys = ["key".toList, "basic".toList] ∧
      (Metadata.ofJson m.toJson = .ok m ∧
        (Metadata.ofJson m.toJson).map Metadata.toJson = .ok m.toJson) ∧
      (let d := Document.assemble m [securedFile]
       Document.ofJson d.toJson = .ok d ∧
        (Document.ofJson d.toJson).map Document.toJson = .ok d.toJson) := by
  have hshown : ((Metadata.ofJson securedText).toOption.map fun m =>
      (decide (∀ v ∈ m.securityDefinitions.values, v.Integral), m.securityDefinitions.keys)) =
        some (true, ["key".toList, "basic".toList]) := by
    decide +kernel
  cases hm : Metadata.ofJson securedText with
  | error f =>
    rw [hm] at hshown
    cases hshown
  | ok m =>
    rw [hm] at hshown
    obtain ⟨hint, hkeys⟩ := Prod.mk.inj (Option.some.inj hshown)
    have hintegral := of_decide_eq_true hint
    exact ⟨m, rfl, hintegral, hkeys, reading_undoes_writing.1 securedText m hm hintegral,
      reading_undoes_writing.2 _ (.assembled hm [securedFile]) hintegral⟩

end ApiAnnotations

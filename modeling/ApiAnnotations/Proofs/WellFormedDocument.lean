import ApiAnnotations.Proofs.Json.Numeral
import ApiAnnotations.Proofs.PathNotation
import ApiAnnotations.Proofs.ReadRecords
import ApiAnnotations.Proofs.Replacement

/-! # Well-formed documents

What holds of the keys and the texts of a document that is made of files, whatever is in the files.

* `Operation.wellFormed_ofRoute`, `Definition.wellFormed_ofModel` : the parts made of records that
  were read.
* `Document.wellFormed_assemble` : documents assembled from sound records.
* `wellFormed_generated` : documents of source files. -/

namespace ApiAnnotations

open Text (IsWord IsText)

/-! ## Parts of documents -/

/-- A numeral without sign or leading zeros of a number up to 65535. -/
structure IsStatusCode (key : Text) : Prop where
  ne_nil : key ≠ []
  digits : ∀ c ∈ key, Text.Decimal.isDigit c = true
  leading : key.head? = some '0' → key = ['0']
  value : Text.Decimal.value key ≤ 65535

structure Parameter.WellFormed (p : Parameter) : Prop where
  name : IsWord p.name
  location : p.location ∈ (["path", "query", "formData", "header", "body"] : List Text)
  description : IsText p.description

structure Operation.WellFormed (x : Operation) : Prop where
  operationId : IsWord x.operationId
  tags : ∀ t ∈ x.tags, IsTag t
  parameters : ∀ p ∈ x.parameters, p.WellFormed
  statusCodes : ∀ key ∈ x.responses.keys, IsStatusCode key
  responses : ∀ r ∈ x.responses.values, IsText r.description

structure Definition.WellFormed (x : Definition) : Prop where
  properties : ∀ name ∈ x.properties.keys, IsWord name

/-- Paths, names and codes are written as they must be, and no path lacks operations. -/
structure Document.WellFormed (d : Document) : Prop where
  paths : ∀ p ∈ d.paths.keys, IsWord p
  segments : ∀ p ∈ d.paths.keys, ∀ s ∈ Text.splitOn '/' p, s.head? ≠ some ':'
  verbs : ∀ operations ∈ d.paths.values, operations.keys ≠ []
  operations : ∀ operations ∈ d.paths.values, ∀ x ∈ operations.values, x.WellFormed
  names : ∀ name ∈ d.definitions.keys, IsWord name
  definitions : ∀ x ∈ d.definitions.values, x.WellFormed

theorem isStatusCode_ofNat {n : Nat} (h : n ≤ 65535) : IsStatusCode (Text.Decimal.ofNat n) := by
  refine ⟨(Text.Decimal.isWord_ofNat n).1, fun c hc => Text.Decimal.isDigit_of_mem_ofNat hc,
    fun hzero => ?_, by rwa [Text.Decimal.value_ofNat]⟩
  rcases Nat.eq_zero_or_pos n with rfl | hpos
  · rfl
  · obtain ⟨rest, hrest⟩ := List.head?_eq_some_iff.mp hzero
    exact absurd hrest (Text.Decimal.ofNat_ne_zero_cons hpos rest)

theorem Parameter.wellFormed_ofParam (known : Text → Bool) {p : Param} (h : p.WellFormed) :
    (ofParam known p).WellFormed := by
  have hlocation : p.location.documentName ∈
      (["path", "query", "formData", "header", "body"] : List Text) := by
    cases p.location <;> decide
  unfold ofParam
  split
  · exact ⟨h.name, hlocation, h.description⟩
  · split
    · exact ⟨h.name, hlocation, h.description⟩
    · exact ⟨h.name, hlocation, h.description⟩

theorem Operation.wellFormed_ofRoute (known : Text → Bool) {r : Route} (h : r.Sound) :
    (ofRoute known r).WellFormed := by
  refine ⟨h.operationId, h.tags, fun p hp => ?_, fun key hkey => ?_, fun x hx => ?_⟩
  · obtain ⟨param, hparam, rfl⟩ := List.mem_map.mp hp
    exact Parameter.wellFormed_ofParam known (h.params param hparam)
  · rw [keys_responses, List.mem_eraseDups, List.mem_map] at hkey
    obtain ⟨s, hs, rfl⟩ := hkey
    exact isStatusCode_ofNat (h.responses s hs).statusCode
  · obtain ⟨e, he, rfl⟩ := List.mem_map.mp (OrderedMap.mem_values_ofList hx)
    obtain ⟨s, hs, rfl⟩ := List.mem_map.mp he
    exact (h.responses s hs).description

theorem Definition.wellFormed_ofModel {m : Model} (h : m.Sound) : (ofModel m).WellFormed := by
  refine ⟨fun name hname => ?_⟩
  rw [keys_properties, List.mem_eraseDups, List.mem_map] at hname
  obtain ⟨f, hf, rfl⟩ := hname
  exact h.fields f hf

/-! ## Documents -/

theorem Document.wellFormed_assemble (m : Metadata) {files : List FileRecords}
    (h : ∀ f ∈ files, f.Sound) : (assemble m files).WellFormed := by
  have hroutes : ∀ r ∈ Assembly.routes files, r.Sound := by
    intro r hr
    obtain ⟨f, hf, hr⟩ := List.mem_flatMap.mp hr
    exact (h f hf).routes r hr
  have hmodels : ∀ a ∈ Assembly.models files, a.Sound := by
    intro a ha
    obtain ⟨f, hf, ha⟩ := List.mem_flatMap.mp ha
    exact (h f hf).models a ha
  have hpaths : ∀ p ∈ (assemble m files).paths.keys,
      ∃ r ∈ Assembly.routes files, convertPath r.path = p := by
    intro p hp
    rw [assemble, Assembly.keys_paths, List.mem_eraseDups, List.mem_map] at hp
    exact hp
  constructor
  case paths =>
    intro p hp
    obtain ⟨r, hr, rfl⟩ := hpaths p hp
    exact isWord_convertPath (hroutes r hr).path
  case segments =>
    intro p hp s hs
    obtain ⟨r, -, rfl⟩ := hpaths p hp
    exact head?_of_mem_splitOn_convertPath hs
  case verbs =>
    intro operations hoperations
    obtain ⟨p, hp⟩ := OrderedMap.exists_get?_of_mem_values hoperations
    obtain ⟨hne, rfl⟩ := Assembly.get?_paths_eq_some_iff.mp hp
    exact Assembly.keys_operations_ne_nil _ hne
  case operations =>
    intro operations hoperations x hx
    obtain ⟨r, hr, rfl⟩ := Assembly.mem_paths hoperations hx
    exact Operation.wellFormed_ofRoute _ (hroutes r hr)
  case names =>
    intro name hname
    rw [assemble, Assembly.definitions, OrderedMap.keys_ofList, List.mem_eraseDups,
      List.mem_map] at hname
    obtain ⟨a, ha, rfl⟩ := hname
    exact (hmodels a ha).name
  case definitions =>
    intro x hx
    obtain ⟨e, he, rfl⟩ := List.mem_map.mp (OrderedMap.mem_values_ofList hx)
    obtain ⟨a, ha, rfl⟩ := List.mem_map.mp he
    exact Definition.wellFormed_ofModel (hmodels a ha)

/-- **Generated documents are well-formed**, for all metadata, configurations and source files. -/
theorem wellFormed_generated (m : Metadata) (config : Config) (sources : List SourceFile) :
    (Document.assemble m (sources.map (FileRecords.ofSource config))).WellFormed := by
  refine Document.wellFormed_assemble m fun f hf => ?_
  obtain ⟨source, -, rfl⟩ := List.mem_map.mp hf
  exact FileRecords.sound_ofSource config source

end ApiAnnotations

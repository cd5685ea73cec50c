import ApiAnnotations.Extraction
import ApiAnnotations.Proofs.FileOrder

/-! # The tags of a document

A document lists the tags that the metadata declare and, behind them, the other tags of the routes.
A route that is replaced still counts, though its operation is gone.

* `mem_names_tags` : the names that are listed.
* `lastWith_or_replaced` : a route is the last one of its path and verb, or it is replaced.
* `tags_listed_once` : the list itself.
* `tags_outlive_routes` : a listed name is declared, or a tag of an operation, or a tag of a route
  that is replaced. -/

namespace ApiAnnotations

/-- An operation of the document has the tag. -/
def Document.HasTag (d : Document) (n : Text) : Prop :=
  ∃ p v op, d.operation? p v = some op ∧ n ∈ op.tags

namespace Assembly

/-- A later route has the path and the verb of this one. -/
def Replaced (rs : List Route) (r : Route) : Prop :=
  ∃ before after, rs = before ++ r :: after ∧ ∃ s ∈ after,
    convertPath s.path = convertPath r.path ∧ Text.toLower s.verb = Text.toLower r.verb

theorem pathKey_eq_iff {r s : Route} :
    pathKey s = pathKey r ↔
      convertPath s.path = convertPath r.path ∧ Text.toLower s.verb = Text.toLower r.verb :=
  Prod.ext_iff

theorem Replaced.mem {rs : List Route} {r : Route} (h : Replaced rs r) : r ∈ rs := by
  obtain ⟨before, after, rfl, -⟩ := h
  simp

theorem lastWith_or_replaced {rs : List Route} {r : Route} (h : r ∈ rs) :
    lastWith pathKey (pathKey r) rs = some r ∨ Replaced rs r := by
  obtain ⟨before, after, rfl⟩ := List.append_of_mem h
  by_cases hlater : ∃ s ∈ after, pathKey s = pathKey r
  · obtain ⟨s, hs, hkey⟩ := hlater
    exact .inr ⟨before, after, rfl, s, hs, pathKey_eq_iff.mp hkey⟩
  · have hnone : after.filter (fun s => decide (pathKey s = pathKey r)) = [] := by
      simpa using hlater
    left
    simp [lastWith, List.filter_append, hnone]

theorem mem_undeclared {declared : List TagInfo} {names : List Text} {n : Text} :
    n ∈ undeclared declared names ↔ n ∈ names ∧ n ∉ declared.map TagInfo.name := by
  simp only [undeclared, List.mem_filter, Bool.not_eq_eq_eq_not, Bool.not_true, ← Bool.not_eq_true,
    any_name_iff]

/-- **The names that are listed** are the declared ones and the tags of routes. -/
theorem mem_names_tags (declared : List TagInfo) (rs : List Route) (n : Text) :
    n ∈ (tags declared rs).map TagInfo.name ↔
      n ∈ declared.map TagInfo.name ∨ ∃ r ∈ rs, n ∈ r.tags := by
  rw [tags_eq_append, mem_names_append_bare, mem_undeclared, List.mem_flatMap]
  by_cases hn : n ∈ declared.map TagInfo.name
  · simp only [hn, true_or]
  · simp only [hn, false_or, not_false_eq_true, and_true]

end Assembly

open Assembly (Replaced)

/-- The operations of a document have the tags of the routes that are not replaced. -/
theorem Document.hasTag_assemble (m : Metadata) (files : List FileRecords) {n : Text} :
    (assemble m files).HasTag n ↔
      ∃ r, lastWith Assembly.pathKey (Assembly.pathKey r) (Assembly.routes files) = some r ∧
        n ∈ r.tags := by
  constructor
  · rintro ⟨p, v, op, hop, hn⟩
    rw [operation?_assemble, Option.map_eq_some_iff] at hop
    obtain ⟨r, hr, rfl⟩ := hop
    exact ⟨r, (key_of_lastWith hr).symm ▸ hr, hn⟩
  · rintro ⟨r, hr, hn⟩
    refine ⟨(Assembly.pathKey r).1, (Assembly.pathKey r).2,
      .ofRoute (Assembly.definitions files).contains r, ?_, hn⟩
    rw [operation?_assemble, hr]
    rfl

theorem Document.mem_names_of_hasTag {m : Metadata} {files : List FileRecords} {n : Text}
    (h : (assemble m files).HasTag n) :
    n ∈ (assemble m files).tags.map TagInfo.name := by
  obtain ⟨r, hr, hn⟩ := (hasTag_assemble m files).mp h
  exact (Assembly.mem_names_tags _ _ n).mpr (.inr ⟨r, mem_of_lastWith hr, hn⟩)

/-- A listed name is declared, or a tag of an operation, or a tag of a route that is replaced. -/
theorem Document.mem_names_iff (m : Metadata) (files : List FileRecords) (n : Text) :
    n ∈ (assemble m files).tags.map TagInfo.name ↔
      n ∈ m.tags.map TagInfo.name ∨ (assemble m files).HasTag n ∨
        ∃ r, Replaced (Assembly.routes files) r ∧ n ∈ r.tags := by
  constructor
  · intro h
    obtain h | ⟨r, hr, hn⟩ := (Assembly.mem_names_tags _ _ n).mp h
    · exact .inl h
    · obtain hlast | hreplaced := Assembly.lastWith_or_replaced hr
      · exact .inr (.inl ((hasTag_assemble m files).mpr ⟨r, hlast, hn⟩))
      · exact .inr (.inr ⟨r, hreplaced, hn⟩)
  · rintro (h | h | ⟨r, hr, hn⟩)
    · exact (Assembly.mem_names_tags _ _ n).mpr (.inl h)
    · exact mem_names_of_hasTag h
    · exact (Assembly.mem_names_tags _ _ n).mpr (.inr ⟨r, hr.mem, hn⟩)

/-- **The tags of a document** are the declared ones as they are and, behind them, a bare tag for
each other tag of a route of any file, once and in order of first occurrence. Every tag of an
operation is listed. -/
theorem tags_listed_once (m : Metadata) (files : List FileRecords) :
    let d := Document.assemble m files
    let rs := files.flatMap FileRecords.routes
    let names := (Assembly.undeclared m.tags (rs.flatMap Route.tags)).eraseDups
    d.tags = m.tags ++ names.map (fun n => ⟨n, [], none⟩) ∧
    names.Nodup ∧
    (∀ n, n ∈ names ↔ (∃ r ∈ rs, n ∈ r.tags) ∧ n ∉ m.tags.map TagInfo.name) ∧
    ∀ p v op, d.operation? p v = some op → ∀ n ∈ op.tags, ∃ t ∈ d.tags, t.name = n := by
  intro d rs names
  refine ⟨Assembly.tags_eq_append m.tags rs, nodup_eraseDups _, fun n => ?_, ?_⟩
  · rw [List.mem_eraseDups, Assembly.mem_undeclared, List.mem_flatMap]
  · intro p v op hop n hn
    exact List.mem_map.mp (Document.mem_names_of_hasTag ⟨p, v, op, hop, hn⟩)

/-- A tag that is declared twice stays as it is. Those of the routes come behind it, a tag of both
files once, and so does one that only a replaced route has. -/
theorem tags_listed_once_clinic :
    let declared : List TagInfo := [⟨"clinic", "Visits", none⟩, ⟨"clinic", [], none⟩]
    let d := Document.assemble { Metadata.default with tags := declared } [petShop, clinic]
    d.tags = declared ++ [⟨"shop", [], none⟩, ⟨"cats", [], none⟩, ⟨"dogs", [], none⟩] := by
  intro declared d
  obtain ⟨htags, -⟩ :=
    tags_listed_once { Metadata.default with tags := declared } [petShop, clinic]
  exact htags.trans (by decide +kernel)

/-- **Tags outlive their routes.**  A name is listed exactly if it is declared, a tag of an
operation, or a tag of a route that is replaced. Only declared tags and tags of operations are
listed exactly if replaced routes have no others. -/
theorem tags_outlive_routes (m : Metadata) (files : List FileRecords) :
    let d := Document.assemble m files
    let rs := files.flatMap FileRecords.routes
    (∀ n, n ∈ d.tags.map TagInfo.name ↔
      n ∈ m.tags.map TagInfo.name ∨ d.HasTag n ∨ ∃ r, Replaced rs r ∧ n ∈ r.tags) ∧
    ((∀ n ∈ d.tags.map TagInfo.name, n ∈ m.tags.map TagInfo.name ∨ d.HasTag n) ↔
      ∀ r, Replaced rs r → ∀ n ∈ r.tags, n ∈ m.tags.map TagInfo.name ∨ d.HasTag n) := by
  intro d rs
  have hlisted := Document.mem_names_iff m files
  refine ⟨hlisted, fun h r hr n hn => ?_, fun h n hn => ?_⟩
  · exact h n ((hlisted n).mpr (.inr (.inr ⟨r, hr, hn⟩)))
  · obtain hdeclared | hused | ⟨r, hr, hmem⟩ := (hlisted n).mp hn
    · exact .inl hdeclared
    · exact .inr hused
    · exact h r hr n hmem

/-- A route, and one that replaces it and has another tag. -/
def renamedTag : FileRecords :=
  .ofSource {} ⟨"pets.go", ["// @route List GET /pets", "// @tag old", "\x7d",
    "// @route Find get /pets", "// @tag new"]⟩

/-- The tag of the first route is listed, though nothing declares it and no operation has it. -/
theorem renamedTag_listed :
    let d := Document.assemble .default [renamedTag]
    ¬ ∀ n ∈ d.tags.map TagInfo.name, n ∈ Metadata.default.tags.map TagInfo.name ∨ d.HasTag n := by
  intro d h
  have hkept : ∀ r ∈ Assembly.routes [renamedTag],
      lastWith Assembly.pathKey (Assembly.pathKey r) (Assembly.routes [renamedTag]) = some r →
        "old".toList ∉ r.tags := by
    decide +kernel
  obtain hdeclared | hused := h "old" (by decide +kernel)
  · exact absurd hdeclared List.not_mem_nil
  · obtain ⟨r, hr, hn⟩ := (Document.hasTag_assemble .default [renamedTag]).mp hused
    exact hkept r (mem_of_lastWith hr) hr hn

end ApiAnnotations

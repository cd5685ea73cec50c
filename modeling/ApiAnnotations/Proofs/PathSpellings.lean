import ApiAnnotations.Proofs.PathNotation
import ApiAnnotations.Proofs.Replacement
import Mathlib.Data.List.Forall2

/-! # Spellings of a path

A parameter of a path is written with a colon in front of its name or with the name in braces.
Documents have the second spelling, so that paths are merged that differ in the spelling of their
parameters.

* `SameSegment`, `SamePath` : texts that differ in nothing else.
* `convertSegment_eq_iff`, `convertPath_eq_iff` : these are the ones that are converted alike.
* `paths_merged_iff` : the converted path of a path, and which routes have a path in common. -/

namespace ApiAnnotations

open Text (joinWith splitOn)

/-- One segment in two spellings, or in one. -/
inductive SameSegment : Text → Text → Prop
  | same (s : Text) : SameSegment s s
  | colon (name : Text) : SameSegment (':' :: name) ('{' :: name ++ ['}'])
  | braces (name : Text) : SameSegment ('{' :: name ++ ['}']) (':' :: name)

/-- Paths with the same segments, up to their spelling. -/
def SamePath (p q : Text) : Prop := List.Forall₂ SameSegment (splitOn '/' p) (splitOn '/' q)

/-! ## Segments -/

theorem convertSegment_of_head {s : Text} (h : s.head? ≠ some ':') : convertSegment s = s := by
  unfold convertSegment
  split
  · exact absurd rfl h
  · rfl

/-- A segment is a parameter with a colon, or stays as it is. -/
theorem convertSegment_cases (s : Text) :
    (∃ name, s = ':' :: name ∧ convertSegment s = '{' :: name ++ ['}']) ∨
      (s.head? ≠ some ':' ∧ convertSegment s = s) := by
  by_cases h : s.head? = some ':'
  · obtain ⟨name, rfl⟩ := List.head?_eq_some_iff.mp h
    exact .inl ⟨name, rfl, rfl⟩
  · exact .inr ⟨h, convertSegment_of_head h⟩

theorem convertSegment_convertSegment (s : Text) :
    convertSegment (convertSegment s) = convertSegment s :=
  convertSegment_of_head (head?_convertSegment s)

/-- **Segments that are converted alike** are spellings of one segment. -/
theorem convertSegment_eq_iff {s t : Text} :
    convertSegment s = convertSegment t ↔ SameSegment s t := by
  constructor
  · intro h
    rcases convertSegment_cases s with ⟨a, rfl, hs⟩ | ⟨-, hs⟩
    · rcases convertSegment_cases t with ⟨b, rfl, ht⟩ | ⟨-, ht⟩
      · rw [hs, ht] at h
        obtain rfl : a = b := List.append_cancel_right (List.cons.inj h).2
        exact .same _
      · rw [hs, ht] at h
        exact h ▸ .colon a
    · rcases convertSegment_cases t with ⟨b, rfl, ht⟩ | ⟨-, ht⟩
      · rw [hs, ht] at h
        exact h ▸ .braces b
      · rw [hs, ht] at h
        exact h ▸ .same s
  · rintro (_ | name | name)
    · rfl
    · rfl
    · rfl

/-! ## Paths -/

theorem convertPath_convertPath (p : Text) : convertPath (convertPath p) = convertPath p := by
  have hsegments : convertSegment ∘ convertSegment = convertSegment :=
    funext convertSegment_convertSegment
  rw [convertPath, splitOn_convertPath, List.map_map, hsegments, convertPath]

/-- **Paths that are converted alike** have the same segments, up to their spelling. -/
theorem convertPath_eq_iff {p q : Text} : convertPath p = convertPath q ↔ SamePath p q := by
  have hsegments : convertPath p = convertPath q ↔
      (splitOn '/' p).map convertSegment = (splitOn '/' q).map convertSegment := by
    constructor
    · intro h
      rw [← splitOn_convertPath, h, splitOn_convertPath]
    · intro h
      rw [convertPath, h, convertPath]
  rw [hsegments, SamePath, ← List.forall₂_eq_eq_eq, List.forall₂_map_left_iff,
    List.forall₂_map_right_iff]
  simp only [convertSegment_eq_iff]

instance (p q : Text) : Decidable (SamePath p q) := decidable_of_iff _ convertPath_eq_iff

/-! ## Documents -/

/-- Both routes are among those whose operations a document lists at one path. -/
def Document.ListsTogether (d : Document) (rs : List Route) (r s : Route) : Prop :=
  ∃ p, d.paths.get? p =
      some (Assembly.operations d.definitions.contains (Assembly.routesAt p rs)) ∧
    r ∈ Assembly.routesAt p rs ∧ s ∈ Assembly.routesAt p rs

theorem Assembly.mem_routesAt {p : Text} {rs : List Route} {r : Route} :
    r ∈ routesAt p rs ↔ r ∈ rs ∧ convertPath r.path = p := by
  rw [routesAt, List.mem_filter, decide_eq_true_eq]

theorem Document.listsTogether_iff (m : Metadata) (files : List FileRecords) (r s : Route) :
    (assemble m files).ListsTogether (Assembly.routes files) r s ↔
      r ∈ Assembly.routes files ∧ s ∈ Assembly.routes files ∧
        convertPath r.path = convertPath s.path := by
  constructor
  · rintro ⟨p, -, hrp, hsp⟩
    obtain ⟨hr, hrpath⟩ := Assembly.mem_routesAt.mp hrp
    obtain ⟨hs, hspath⟩ := Assembly.mem_routesAt.mp hsp
    exact ⟨hr, hs, hrpath.trans hspath.symm⟩
  · rintro ⟨hr, hs, hpath⟩
    have hmem : r ∈ Assembly.routesAt (convertPath r.path) (Assembly.routes files) :=
      Assembly.mem_routesAt.mpr ⟨hr, rfl⟩
    refine ⟨convertPath r.path, ?_, hmem, Assembly.mem_routesAt.mpr ⟨hs, hpath.symm⟩⟩
    exact Assembly.get?_paths_eq_some_iff.mpr ⟨List.ne_nil_of_mem hmem, rfl⟩

/-- **Normal spelling.**  Converting a path twice is converting it once; it keeps the number of
segments, and none begins with a colon afterwards. Two paths are converted alike exactly if they
have as many segments, and each is in both the same or a parameter in one of its spellings. So a
document lists two of its routes at one path exactly if their paths differ in such spellings
alone. -/
theorem paths_merged_iff :
    (∀ p, convertPath (convertPath p) = convertPath p) ∧
    (∀ p, (splitOn '/' (convertPath p)).length = (splitOn '/' p).length ∧
      ∀ s ∈ splitOn '/' (convertPath p), s.head? ≠ some ':') ∧
    (∀ p q, convertPath p = convertPath q ↔ SamePath p q) ∧
    ∀ (m : Metadata) (files : List FileRecords) (r s : Route),
      (Document.assemble m files).ListsTogether (files.flatMap FileRecords.routes) r s ↔
        r ∈ files.flatMap FileRecords.routes ∧ s ∈ files.flatMap FileRecords.routes ∧
          SamePath r.path s.path := by
  refine ⟨convertPath_convertPath, fun p => ⟨?_, fun s => head?_of_mem_splitOn_convertPath⟩,
    fun p q => convertPath_eq_iff, fun m files r s => ?_⟩
  · rw [splitOn_convertPath, List.length_map]
  · rw [← convertPath_eq_iff]
    exact Document.listsTogether_iff m files r s

/-- Empty segments, a colon alone, and a name that begins with a colon. -/
example : SamePath "//:/::id/{n}" "//{}/{:id}/:n" ∧ ¬ SamePath "/::id" "/:id" := by
  decide

end ApiAnnotations

import ApiAnnotations.Assembly
import ApiAnnotations.Proofs.Text.Lines

/-! # Paths in the notation of documents

* `splitOn_convertPath` : the segments of a converted path are the converted segments.
* `head?_convertSegment` : none of them begins with a colon.
* `isWord_convertPath` : a converted word is a word. -/

namespace ApiAnnotations

open Text (IsWord joinWith splitOn)

/-- Converting a segment adds nothing but braces. -/
theorem mem_convertSegment {c : Char} {s : Text} (h : c ∈ convertSegment s) :
    c ∈ s ∨ c = '{' ∨ c = '}' := by
  unfold convertSegment at h
  split at h
  · next name =>
    simp only [List.mem_append, List.mem_singleton] at h
    rcases h with (rfl | h) | rfl
    · exact .inr (.inl rfl)
    · exact .inl (List.mem_cons_of_mem _ h)
    · exact .inr (.inr rfl)
  · exact .inl h

theorem head?_convertSegment (s : Text) : (convertSegment s).head? ≠ some ':' := by
  unfold convertSegment
  split
  · simp
  · next hnot =>
    cases s with
    | nil => simp
    | cons c s =>
      intro hc
      exact hnot s (by rw [Option.some.inj hc])

theorem convertSegment_eq_nil_iff {s : Text} : convertSegment s = [] ↔ s = [] := by
  unfold convertSegment
  split
  · simp
  · rfl

/-- **Segments stay segments.** -/
theorem splitOn_convertPath (p : Text) :
    splitOn '/' (convertPath p) = (splitOn '/' p).map convertSegment := by
  refine Text.splitOn_joinWith (by simp [splitOn, Text.splitWhere_ne_nil]) fun s hs hslash => ?_
  obtain ⟨segment, hsegment, rfl⟩ := List.mem_map.mp hs
  rcases mem_convertSegment hslash with h | h | h
  · exact absurd (Text.not_mem_splitWhere hsegment _ h) (by decide)
  · exact absurd h (by decide)
  · exact absurd h (by decide)

theorem head?_of_mem_splitOn_convertPath {p s : Text} (h : s ∈ splitOn '/' (convertPath p)) :
    s.head? ≠ some ':' := by
  rw [splitOn_convertPath, List.mem_map] at h
  obtain ⟨segment, -, rfl⟩ := h
  exact head?_convertSegment segment

/-- **A word stays a word.** -/
theorem isWord_convertPath {p : Text} (h : IsWord p) : IsWord (convertPath p) := by
  constructor
  · intro hnil
    have hsegments := splitOn_convertPath p
    rw [hnil] at hsegments
    have hempty : splitOn '/' p = [[]] := by
      obtain ⟨s, hs⟩ := List.map_eq_singleton_iff.mp hsegments.symm
      rw [hs.1, convertSegment_eq_nil_iff.mp hs.2]
    apply h.1
    rw [← Text.joinWith_splitOn '/' p, hempty]
    rfl
  · intro c hc
    rcases Text.mem_joinWith hc with hc | ⟨s, hs, hc⟩
    · rw [List.mem_singleton.mp hc]
      decide
    · obtain ⟨segment, hsegment, rfl⟩ := List.mem_map.mp hs
      rcases mem_convertSegment hc with hc | rfl | rfl
      · apply h.2
        rw [← Text.joinWith_splitOn '/' p]
        exact Text.mem_joinWith_of_mem hsegment hc
      · decide
      · decide

end ApiAnnotations

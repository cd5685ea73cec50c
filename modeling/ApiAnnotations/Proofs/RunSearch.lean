import ApiAnnotations.Proofs.BlockSearch
import ApiAnnotations.Proofs.DirectiveTable
import Mathlib.Data.List.Basic

/-! # Search by marker and search by run

The blocks of a file are found by looking for a marker. Where all marked lines are comment lines,
reading every run of comment lines instead finds the same records.

* `commentRuns` : the maximal runs of comment lines, cut without looking for anything.
* `marked_eq_filter_runs` : the blocks found by a marker are among them, in the same order.
* `records_eq_runs` : a reader that refuses blocks without the marker finds the same records either
  way; `routes_eq_runs` says so of routes. -/

namespace ApiAnnotations

/-! ## Cutting lines into runs -/

/-- The first lines of runs: the comment lines that are not directly below another one. -/
def runStarts (start : Text) (lines : List Text) : List Nat :=
  (List.range lines.length).filter fun i =>
    IsCommentAt start lines i ∧ (i = 0 ∨ ¬ IsCommentAt start lines (i - 1))

/-- The comment lines from line `first` on, without their comment starts. -/
def runFrom (start : Text) (lines : List Text) (first : Nat) : CommentBlock :=
  let run := (lines.drop first).takeWhile (isCommentLine start)
  ⟨run.map (fun line => line.drop start.length), first, first + run.length - 1⟩

/-- The maximal runs of comment lines, in order. -/
def commentRuns (start : Text) (lines : List Text) : List CommentBlock :=
  (runStarts start lines).map (runFrom start lines)

section

variable {start marker : Text} {lines : List Text} {first last : Nat}

theorem mem_runStarts : first ∈ runStarts start lines ↔ ∃ last, IsRun start lines first last := by
  simp only [runStarts, List.mem_filter, List.mem_range, decide_eq_true_eq]
  constructor
  · rintro ⟨hlt, hc, hbefore⟩
    have hs := CommentBlock.surrounds_around start hlt
    have hfirst : (CommentBlock.around start lines first).firstLine = first := by
      rcases Nat.eq_or_lt_of_le hs.first_le with heq | hm
      · exact heq
      · exact absurd (hs.above (first - 1) (by omega) (by omega))
          (forall_not_before_iff.mpr hbefore _ (by omega))
    have hrun := hs.isRun hc
    rw [hfirst] at hrun
    exact ⟨_, hrun⟩
  · rintro ⟨last, hrun⟩
    have hc := hrun.comment first (Nat.le_refl _) hrun.le
    exact ⟨hc.lt, hc, forall_not_before_iff.mp hrun.before⟩

theorem runFrom_of_run (h : IsRun start lines first last) :
    runFrom start lines first = ⟨bodies start lines first (last + 1), first, last⟩ := by
  obtain ⟨hin, hout⟩ := takeWhile_length_spec (isCommentLine start) (lines.drop first)
  have hle := h.le
  have hlen : ((lines.drop first).takeWhile (isCommentLine start)).length = last + 1 - first := by
    generalize ((lines.drop first).takeWhile (isCommentLine start)).length = n at hin hout
    rcases Nat.lt_trichotomy n (last + 1 - first) with hm | hm | hm
    · exact absurd (HoldsAt.drop.mpr (h.comment (first + n) (by omega) (by omega))) hout
    · exact hm
    · have := HoldsAt.drop.mp (hin (last + 1 - first) hm)
      rw [show first + (last + 1 - first) = last + 1 by omega] at this
      exact absurd this h.after
  have htake := List.prefix_iff_eq_take.mp
    (List.takeWhile_prefix (isCommentLine start) (l := lines.drop first))
  rw [hlen] at htake
  simp only [runFrom, hlen, bodies, ← htake]
  rw [show first + (last + 1 - first) - 1 = last by omega]

/-- The runs that are cut are the maximal runs of comment lines. -/
theorem mem_commentRuns {block : CommentBlock} : block ∈ commentRuns start lines ↔
    ∃ first last, IsRun start lines first last ∧
      block = ⟨bodies start lines first (last + 1), first, last⟩ := by
  rw [commentRuns, List.mem_map]
  constructor
  · rintro ⟨first, hfirst, rfl⟩
    obtain ⟨last, hrun⟩ := mem_runStarts.mp hfirst
    exact ⟨first, last, hrun, runFrom_of_run hrun⟩
  · rintro ⟨first, last, hrun, rfl⟩
    exact ⟨first, mem_runStarts.mpr ⟨last, hrun⟩, runFrom_of_run hrun⟩

theorem commentRuns_pairwise (start : Text) (lines : List Text) :
    (commentRuns start lines).Pairwise (fun b c => b.firstLine < c.firstLine) := by
  rw [commentRuns, List.pairwise_map]
  exact List.pairwise_lt_range.filter _

theorem mem_bodies {stop : Nat} {body : Text} (h : body ∈ bodies start lines first stop) :
    ∃ i line, first ≤ i ∧ i < stop ∧ lines[i]? = some line ∧ body = line.drop start.length := by
  obtain ⟨line, hline, rfl⟩ := List.mem_map.mp h
  obtain ⟨i, hi, hi', hline⟩ := exists_of_mem_take_drop hline
  exact ⟨i, line, hi, by omega, hline, rfl⟩

/-! ## The runs that a marker finds -/

/-- Where all marked lines are comment lines, the blocks found by the marker are runs, in order. -/
theorem marked_eq_filter_runs
    (h : ∀ k, IsMarkedAt marker lines k → IsCommentAt start lines k) :
    CommentBlock.marked start marker lines =
      (commentRuns start lines).filter (· ∈ CommentBlock.marked start marker lines) := by
  have hmarked := CommentBlock.firstLine_pairwise start marker lines
  have hruns := (commentRuns_pairwise start lines).filter
    (· ∈ CommentBlock.marked start marker lines)
  have hnodup : ∀ {bs : List CommentBlock},
      bs.Pairwise (fun b c => b.firstLine < c.firstLine) → bs.Nodup :=
    fun hbs => hbs.imp fun {b c} hlt heq => by rw [heq] at hlt; omega
  refine List.Perm.eq_of_pairwise (fun b c _ _ hbc hcb => by omega) hmarked hruns
    ((List.perm_ext_iff_of_nodup (hnodup hmarked) (hnodup hruns)).mpr fun b => ?_)
  rw [List.mem_filter, decide_eq_true_eq]
  refine ⟨fun hb => ⟨?_, hb⟩, fun hb => hb.2⟩
  rw [CommentBlock.marked_eq_map_openers, List.mem_map] at hb
  obtain ⟨k, hk, rfl⟩ := hb
  have hopen := CommentBlock.mem_openers.mp hk
  have hrun := hopen.surrounds.isRun (h k hopen.1)
  exact mem_commentRuns.mpr ⟨_, _, hrun,
    (CommentBlock.around_eq hopen.surrounds).trans (span_of_run hrun)⟩

theorem contains_of_contains_drop {needle s : Text} {n : Nat}
    (h : Text.contains needle (s.drop n) = true) : Text.contains needle s = true := by
  obtain ⟨a, b, hs⟩ := Text.contains_iff.mp h
  refine Text.contains_iff.mpr ⟨s.take n ++ a, b, ?_⟩
  rw [List.append_assoc, List.append_assoc, ← List.append_assoc a, ← hs, List.take_append_drop]

/-- A run that the marker does not find has no body with the marker in it. -/
theorem not_contains_of_not_mem_marked (hrun : IsRun start lines first last)
    (h : ⟨bodies start lines first (last + 1), first, last⟩ ∉
      CommentBlock.marked start marker lines) :
    ∀ body ∈ bodies start lines first (last + 1), Text.contains marker body = false := by
  intro body hbody
  obtain ⟨i, line, hi, hi', hline, rfl⟩ := mem_bodies hbody
  cases hc : Text.contains marker (line.drop start.length)
  · rfl
  · exact absurd (CommentBlock.run_mem_marked hrun hi (by omega)
      ⟨line, hline, contains_of_contains_drop hc⟩) h

end

/-- **Search by run.**  Where all marked lines are comment lines, a reader that refuses blocks
without the marker makes the same records of all runs as of the blocks found by the marker. -/
theorem records_eq_runs {α : Type} (config : Config) (source : SourceFile) (marker : Text)
    (read : DirectiveTable → Place → Except GrammarError α)
    (hmarked : ∀ k, IsMarkedAt marker source.lines k →
      IsCommentAt config.commentStart source.lines k)
    (hread : ∀ lines place, (∀ line ∈ lines, Text.contains marker line = false) →
      (read (.ofLines lines) place).toOption = none) :
    Extraction.records source.path read (Extraction.blocks config source marker) =
      (commentRuns config.commentStart source.lines).filterMap fun run =>
        (read (.ofLines run.lines) ⟨source.path, run.lastLine + 1⟩).toOption := by
  rw [Extraction.blocks, marked_eq_filter_runs hmarked, Extraction.records, List.filterMap_filter]
  refine List.filterMap_congr fun run hrun => ?_
  obtain ⟨first, last, hisRun, rfl⟩ := mem_commentRuns.mp hrun
  split
  · rfl
  · next hmem =>
    exact (hread _ _ (not_contains_of_not_mem_marked hisRun (by simpa using hmem))).symm

/-- **Routes by run.**  In a file whose lines with `@route` in them are all comment lines, the
routes are those of all runs of comment lines. -/
theorem routes_eq_runs (source : SourceFile)
    (h : ∀ line ∈ source.lines, Text.contains "@route" line = true →
      Text.startsWith "// " line = true) :
    (FileRecords.ofSource {} source).routes =
      (commentRuns "// " source.lines).filterMap fun run =>
        (Route.parse (.ofLines run.lines) ⟨source.path, run.lastLine + 1⟩).toOption := by
  refine records_eq_runs {} source "@route" Route.parse ?_ ?_
  · rintro k ⟨line, hline, hmark⟩
    exact ⟨line, hline, h line (List.mem_of_getElem? hline) hmark⟩
  · intro lines place hlines
    have hnone : (DirectiveTable.ofLines lines).first? .route = none :=
      DirectiveTable.first?_eq_none_of_not_contains hlines
    exact Route.toOption_parse_of_first? hnone place

/-- A run that mentions the marker, a run with two routes, a run with a longer word in the place of
the directive, and a run that ends the file. -/
def mentionsAndRoutes : SourceFile :=
  .ofText "m.go" ("// see @route below\nvar x int\n" ++
    "// @route A GET /a\n// @route B GET /b\nfunc A() \x7b\x7d\n" ++
    "// @routes C GET /c\n\n//  @route D GET /d\n// @description E of @route\n// @route\tE PUT /e")

theorem routes_eq_runs_mentionsAndRoutes :
    (∀ line ∈ mentionsAndRoutes.lines, Text.contains "@route" line = true →
      Text.startsWith "// " line = true) ∧
    (FileRecords.ofSource {} mentionsAndRoutes).routes =
      (commentRuns "// " mentionsAndRoutes.lines).filterMap (fun run =>
        (Route.parse (.ofLines run.lines) ⟨mentionsAndRoutes.path, run.lastLine + 1⟩).toOption) ∧
    (FileRecords.ofSource {} mentionsAndRoutes).routes.map Route.operationId = ["A", "E"] := by
  have hmarked : ∀ line ∈ mentionsAndRoutes.lines, Text.contains "@route" line = true →
      Text.startsWith "// " line = true := by decide +kernel
  exact ⟨hmarked, routes_eq_runs mentionsAndRoutes hmarked, by decide +kernel⟩

end ApiAnnotations

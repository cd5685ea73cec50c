import ApiAnnotations.Proofs.RunSearch

/-! # Runs that a marker misses

A marker is found as it is written, while a directive may have any blank behind its name. A run of
comment lines with a directive is therefore missed if the marker ends in another blank.

* `marked_eq_filter_contains` : where all marked lines are comment lines, the blocks found by a
  marker are the runs that contain it.
* `models_missed_iff` : the models found by `@model` and a space are those of all runs unless a run
  that makes a model lacks the space. -/

namespace ApiAnnotations

/-- What begins with a character outside of `p` is not found in `p` or across its end. -/
theorem Text.contains_append_of_not_mem {c : Char} {p : Text} (hc : c ∉ p) (needle s : Text) :
    contains (c :: needle) (p ++ s) = contains (c :: needle) s := by
  induction p with
  | nil => rfl
  | cons d p ih =>
    rw [List.mem_cons, not_or] at hc
    have hstart : startsWith (c :: needle) (d :: (p ++ s)) = false := by
      rw [Bool.eq_false_iff]
      intro h
      obtain ⟨rest, hrest⟩ := startsWith_iff.mp h
      exact hc.1 (List.cons.inj hrest).1.symm
    rw [List.cons_append, contains, hstart, Bool.false_or, ih hc.2]

/-- Filtering in front of a partial function loses nothing exactly if what is filtered out has no
value. -/
theorem filterMap_filter_eq_iff {α β : Type} (p : α → Bool) (f : α → Option β) (as : List α) :
    (as.filter p).filterMap f = as.filterMap f ↔ ∀ a ∈ as, (f a).isSome → p a = true := by
  induction as with
  | nil => simp
  | cons a as ih =>
    have hle : ((as.filter p).filterMap f).length ≤ (as.filterMap f).length :=
      (List.filter_sublist.filterMap f).length_le
    rw [List.forall_mem_cons, ← ih]
    cases hp : p a with
    | true =>
      rw [List.filter_cons_of_pos hp]
      cases hf : f a with
      | none => simp [hf]
      | some b => simp [hf]
    | false =>
      rw [List.filter_cons_of_neg (by simp [hp])]
      cases hf : f a with
      | none => simp [hf]
      | some b =>
        -- the value of `a` makes the right side longer
        rw [List.filterMap_cons_some hf]
        constructor
        · intro h
          rw [h, List.length_cons] at hle
          omega
        · rintro ⟨h, -⟩
          exact absurd (h rfl) Bool.false_ne_true

/-! ## Runs with the marker -/

section

variable {start marker : Text} {lines : List Text} {first last stop i : Nat}

theorem drop_mem_bodies {line : Text} (hfirst : first ≤ i) (hi : i < stop)
    (hline : lines[i]? = some line) : line.drop start.length ∈ bodies start lines first stop := by
  refine List.mem_map_of_mem (List.mem_iff_getElem?.mpr ⟨i - first, ?_⟩)
  rw [List.getElem?_take_of_lt (by omega), List.getElem?_drop, show first + (i - first) = i by omega,
    hline]

/-- A run that is found has the marker in a line; the comment start has no part in it. -/
theorem exists_contains_of_run_mem_marked {c : Char} {needle : Text} (hc : c ∉ start)
    (hrun : IsRun start lines first last)
    (h : ⟨bodies start lines first (last + 1), first, last⟩ ∈
      CommentBlock.marked start (c :: needle) lines) :
    ∃ body ∈ bodies start lines first (last + 1), Text.contains (c :: needle) body = true := by
  rw [CommentBlock.marked_eq_map_openers] at h
  obtain ⟨k, hk, haround⟩ := List.mem_map.mp h
  have hopen := CommentBlock.mem_openers.mp hk
  have hs := hopen.surrounds
  rw [haround] at hs
  have hfirst : first ≤ k := hs.first_le
  have hlast : k ≤ last := hs.le_last
  obtain ⟨line, hline, hmark⟩ := hopen.1
  obtain ⟨l, hl, hcomment⟩ := hrun.comment k hfirst hlast
  obtain rfl : line = l := Option.some.inj (hline.symm.trans hl)
  refine ⟨_, drop_mem_bodies hfirst (by omega) hline, ?_⟩
  obtain ⟨-, rest, rfl⟩ := isCommentLine_iff.mp hcomment
  rw [Text.contains_append_of_not_mem hc] at hmark
  rwa [List.drop_left]

/-- **The runs that a marker finds** are those with the marker in one of their lines. -/
theorem marked_eq_filter_contains {c : Char} {needle : Text} (hc : c ∉ start)
    (h : ∀ k, IsMarkedAt (c :: needle) lines k → IsCommentAt start lines k) :
    CommentBlock.marked start (c :: needle) lines =
      (commentRuns start lines).filter fun run => run.lines.any (Text.contains (c :: needle)) := by
  rw [marked_eq_filter_runs h]
  apply List.filter_congr
  intro run hrun
  obtain ⟨first, last, hisRun, rfl⟩ := mem_commentRuns.mp hrun
  rw [Bool.eq_iff_iff, decide_eq_true_eq, List.any_eq_true]
  constructor
  · exact exists_contains_of_run_mem_marked hc hisRun
  · rintro ⟨body, hbody, hmark⟩
    by_contra hmem
    rw [not_contains_of_not_mem_marked hisRun hmem body hbody] at hmark
    exact Bool.false_ne_true hmark

end

/-- The model of a run, if it makes one. -/
def modelOfRun (source : SourceFile) (run : CommentBlock) : Option Model :=
  (Model.parse ({} : Config).declarationStyle source.lines (.ofLines run.lines)
    ⟨source.path, run.lastLine + 1⟩).toOption

/-- **Models by run.**  In a file whose lines with `@model` and a space in them are all comment
lines, the models are those of the runs with that text. They are those of all runs exactly if each
run that makes a model has it. A run that makes a model without it has another blank behind
`@model`. -/
theorem models_missed_iff (source : SourceFile)
    (h : ∀ line ∈ source.lines, Text.contains "@model " line = true →
      Text.startsWith "// " line = true) :
    (FileRecords.ofSource {} source).models =
      ((commentRuns "// " source.lines).filter fun run =>
        run.lines.any (Text.contains "@model ")).filterMap (modelOfRun source) ∧
    ((FileRecords.ofSource {} source).models =
        (commentRuns "// " source.lines).filterMap (modelOfRun source) ↔
      ∀ run ∈ commentRuns "// " source.lines, (modelOfRun source run).isSome →
        run.lines.any (Text.contains "@model ") = true) ∧
    ∀ run ∈ commentRuns "// " source.lines, (modelOfRun source run).isSome →
      run.lines.any (Text.contains "@model ") = false →
      ∃ line ∈ run.lines, ∃ c rest, Text.isBlank c = true ∧ c ≠ ' ' ∧
        line = "@model".toList ++ c :: rest := by
  have hmarked : ∀ k, IsMarkedAt "@model " source.lines k →
      IsCommentAt "// " source.lines k := by
    rintro k ⟨line, hline, hmark⟩
    exact ⟨line, hline, h line (List.mem_of_getElem? hline) hmark⟩
  have hmodels : (FileRecords.ofSource {} source).models =
      ((commentRuns "// " source.lines).filter fun run =>
        run.lines.any (Text.contains "@model ")).filterMap (modelOfRun source) :=
    congrArg (List.filterMap (modelOfRun source))
      (marked_eq_filter_contains (by decide) hmarked)
  refine ⟨hmodels, ?_, ?_⟩
  · rw [hmodels]
    exact filterMap_filter_eq_iff _ _ _
  · intro run _ hmodel hnone
    obtain ⟨line, hline, c, rest, hc, rfl⟩ := Model.exists_line_of_parse hmodel
    refine ⟨_, hline, c, rest, hc, ?_, rfl⟩
    rintro rfl
    have hcontains : Text.contains "@model " ("@model".toList ++ ' ' :: rest) = true :=
      Text.contains_iff.mpr ⟨[], rest, rfl⟩
    rw [List.any_eq_false] at hnone
    exact hnone _ hline hcontains

/-- Runs with a space, with a tab, with a tab below a line that has the space, and with an
ideographic space behind `@model`. -/
def blankSpellings : SourceFile :=
  .ofText "s.go" ("// @model A\ntype A struct \x7b\n\x7d\n// @model\tB\n\n" ++
    "// @description like @model A\n// @model\tC\n\n// @model\u3000D")

theorem models_missed_iff_blankSpellings :
    (∀ line ∈ blankSpellings.lines, Text.contains "@model " line = true →
      Text.startsWith "// " line = true) ∧
    (FileRecords.ofSource {} blankSpellings).models =
      ((commentRuns "// " blankSpellings.lines).filter fun run =>
        run.lines.any (Text.contains "@model ")).filterMap (modelOfRun blankSpellings) ∧
    (FileRecords.ofSource {} blankSpellings).models.map Model.name = ["A", "C"] ∧
    ((commentRuns "// " blankSpellings.lines).filterMap (modelOfRun blankSpellings)).map
      Model.name = ["A", "B", "C", "D"] := by
  have hmarked : ∀ line ∈ blankSpellings.lines, Text.contains "@model " line = true →
      Text.startsWith "// " line = true := by decide +kernel
  exact ⟨hmarked, (models_missed_iff blankSpellings hmarked).1, by decide +kernel,
    by decide +kernel⟩

/-- A model with a tab behind `@model`. -/
def tabBehindModel : SourceFile :=
  .ofText "t.go" "// @model\tTask\ntype Task struct \x7b\n\tID int\n\x7d\n"

/-- All its lines with `@model` are comment lines, and its run makes a model, but none is found. -/
theorem tabBehindModel_missed :
    (∀ line ∈ tabBehindModel.lines, Text.contains "@model" line = true →
      Text.startsWith "// " line = true) ∧
    (FileRecords.ofSource {} tabBehindModel).models = [] ∧
    (commentRuns "// " tabBehindModel.lines).filterMap (modelOfRun tabBehindModel) =
      [⟨"Task", none, ⟨"t.go", 1⟩, [⟨"ID", .primitive .integer⟩]⟩] := by
  decide +kernel

end ApiAnnotations

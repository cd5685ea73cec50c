import ApiAnnotations.Extraction
import ApiAnnotations.Proofs.MarkedBlocks

/-! # The blocks that are read

Which comment blocks of a file are read as records, said without the search that finds them.

* `IsRun start lines first last` : a maximal run of comment lines.
* `Trigger start marker lines k block` : line `k` causes `block` to be read. Either it is the first
  marked line of a run, which is then the block, or it is a marked line outside the comments with no
  marked line in the run above it, and joins the runs on both sides.
* `blocks_exact` : each trigger has its block read once, in order, and nothing else is read.
* `blocks_apart_iff` : no line is in two of the blocks unless a marked line outside the comments has
  a run below it in which, or directly behind which, there is another marked line. -/

namespace ApiAnnotations

/-- The lines from `first` to `last` are a maximal run of comment lines. -/
structure IsRun (start : Text) (lines : List Text) (first last : Nat) : Prop where
  le : first ≤ last
  comment : ∀ i, first ≤ i → i ≤ last → IsCommentAt start lines i
  before : ∀ i, i + 1 = first → ¬ IsCommentAt start lines i
  after : ¬ IsCommentAt start lines (last + 1)

/-- The lines from `first` to the one above `k` are the run that ends there, if there is one. -/
def IsRunAbove (start : Text) (lines : List Text) (first k : Nat) : Prop :=
  (first = k ∧ ∀ i, i + 1 = k → ¬ IsCommentAt start lines i) ∨
    ∃ i, i + 1 = k ∧ IsRun start lines first i

/-- The lines from the one below `k` to `last` are the run that begins there, if there is one. -/
def IsRunBelow (start : Text) (lines : List Text) (k last : Nat) : Prop :=
  (last = k ∧ ¬ IsCommentAt start lines (k + 1)) ∨ IsRun start lines (k + 1) last

/-- The lines from `first` on and below `stop`, each without its comment start. -/
def bodies (start : Text) (lines : List Text) (first stop : Nat) : List Text :=
  ((lines.drop first).take (stop - first)).map (fun line => line.drop start.length)

/-- Line `k` causes the block to be read. -/
inductive Trigger (start marker : Text) (lines : List Text) : Nat → CommentBlock → Prop
  /-- The first marked line of a run; the block is the run. -/
  | comment {k first last : Nat} : IsRun start lines first last → first ≤ k → k ≤ last →
      IsMarkedAt marker lines k → (∀ i, first ≤ i → i < k → ¬ IsMarkedAt marker lines i) →
      Trigger start marker lines k ⟨bodies start lines first (last + 1), first, last⟩
  /-- A marked line outside the comments, below a run without marks or none; the block is the line
  as it stands between the runs above and below it. -/
  | code {k first last : Nat} {line : Text} : lines[k]? = some line →
      ¬ IsCommentAt start lines k → IsMarkedAt marker lines k →
      IsRunAbove start lines first k → (∀ i, first ≤ i → i < k → ¬ IsMarkedAt marker lines i) →
      IsRunBelow start lines k last →
      Trigger start marker lines k
        ⟨bodies start lines first k ++ line :: bodies start lines (k + 1) (last + 1), first, last⟩

/-! ## Runs and the lines around a line -/

section

variable {start marker : Text} {lines : List Text} {k first last : Nat}

theorem IsRun.surrounds (h : IsRun start lines first last) (hk : first ≤ k) (hk' : k ≤ last) :
    Surrounds start lines k first last :=
  ⟨hk, hk', (h.comment last h.le (Nat.le_refl _)).lt, fun i hi hik => h.comment i hi (by omega),
    fun i hki hi => h.comment i (by omega) hi, h.before, h.after⟩

theorem Surrounds.isRun (h : Surrounds start lines k first last)
    (hk : IsCommentAt start lines k) : IsRun start lines first last := by
  refine ⟨Nat.le_trans h.first_le h.le_last, fun i hi hi' => ?_, h.before, h.after⟩
  rcases Nat.lt_trichotomy i k with hlt | rfl | hgt
  · exact h.above i hi hlt
  · exact hk
  · exact h.below i hgt hi'

/-- Around a line outside the comments there are the run above it and the run below it. -/
theorem surrounds_iff_runs (hk : k < lines.length) (hc : ¬ IsCommentAt start lines k) :
    Surrounds start lines k first last ↔
      IsRunAbove start lines first k ∧ IsRunBelow start lines k last := by
  constructor
  · intro h
    have hfirst := h.first_le
    have hlast := h.le_last
    constructor
    · rcases Nat.eq_or_lt_of_le hfirst with rfl | hlt
      · exact .inl ⟨rfl, h.before⟩
      · refine .inr ⟨k - 1, by omega, by omega, fun i hi hi' => h.above i hi (by omega),
          h.before, ?_⟩
        rwa [show k - 1 + 1 = k by omega]
    · rcases Nat.eq_or_lt_of_le hlast with rfl | hlt
      · exact .inl ⟨rfl, h.after⟩
      · refine .inr ⟨by omega, fun i hi hi' => h.below i (by omega) hi', fun i hi => ?_, h.after⟩
        obtain rfl : i = k := by omega
        exact hc
  · rintro ⟨habove, hbelow⟩
    obtain ⟨hle, hin, hbefore⟩ : first ≤ k ∧
        (∀ i, first ≤ i → i < k → IsCommentAt start lines i) ∧
        ∀ i, i + 1 = first → ¬ IsCommentAt start lines i := by
      rcases habove with ⟨rfl, hbefore⟩ | ⟨i, rfl, hrun⟩
      · exact ⟨Nat.le_refl _, fun i hi hi' => by omega, hbefore⟩
      · exact ⟨Nat.le_succ_of_le hrun.le, fun j hj hj' => hrun.comment j hj (by omega),
          hrun.before⟩
    rcases hbelow with ⟨rfl, hafter⟩ | hrun
    · exact ⟨hle, Nat.le_refl _, hk, hin, fun i hi hi' => by omega, hbefore, hafter⟩
    · have hlast := hrun.le
      exact ⟨hle, by omega, (hrun.comment last hrun.le (Nat.le_refl _)).lt, hin,
        fun i hi hi' => hrun.comment i (by omega) hi', hbefore, hrun.after⟩

end

/-! ## Uncommented lines -/

section

variable {start line : Text} {lines : List Text} {k first last : Nat}

theorem uncomment_of_comment (h : isCommentLine start line = true) :
    uncomment start line = line.drop start.length := by
  obtain ⟨-, rest, rfl⟩ := isCommentLine_iff.mp h
  rw [uncomment_append, List.drop_left]

theorem uncomment_of_code (h : isCommentLine start line = false) : uncomment start line = line := by
  cases hs : Text.stripStart? start line with
  | none => rw [uncomment, hs, Option.getD_none]
  | some rest =>
    have hline := Text.stripStart?_eq_some_iff.mp hs
    have hempty : start = [] := by
      rw [isCommentLine, Text.startsWith_iff.mpr ⟨rest, hline⟩, Bool.and_true] at h
      simpa using h
    rw [uncomment, hs, Option.getD_some, hline, hempty, List.nil_append]

theorem map_uncomment_eq_bodies {stop : Nat}
    (h : ∀ i, first ≤ i → i < stop → IsCommentAt start lines i) :
    ((lines.drop first).take (stop - first)).map (uncomment start) =
      bodies start lines first stop := by
  apply List.map_congr_left
  intro line hline
  obtain ⟨i, hi, hi', hline⟩ := exists_of_mem_take_drop hline
  obtain ⟨l, hl, hc⟩ := h i hi (by omega)
  obtain rfl : line = l := Option.some.inj (hline.symm.trans hl)
  exact uncomment_of_comment hc

/-- The span of a run is the lines of the run without their comment starts. -/
theorem span_of_run (h : IsRun start lines first last) :
    CommentBlock.span start lines first last =
      ⟨bodies start lines first (last + 1), first, last⟩ := by
  rw [CommentBlock.span, map_uncomment_eq_bodies fun i hi hi' => h.comment i hi (by omega)]

/-- The span around a line outside the comments has that line as it stands. -/
theorem span_of_code (h : Surrounds start lines k first last) (hline : lines[k]? = some line)
    (hc : ¬ IsCommentAt start lines k) :
    CommentBlock.span start lines first last =
      ⟨bodies start lines first k ++ line :: bodies start lines (k + 1) (last + 1),
        first, last⟩ := by
  have hfirst := h.first_le
  have hlast := h.le_last
  have hlt := h.last_lt
  have hcut : (lines.drop first).take (last + 1 - first) =
      (lines.drop first).take (k - first) ++
        line :: (lines.drop (k + 1)).take (last + 1 - (k + 1)) := by
    have hdrop : (lines.drop first).drop (k - first) = line :: lines.drop (k + 1) := by
      rw [List.drop_drop, show first + (k - first) = k by omega,
        List.drop_eq_getElem_cons (by omega)]
      congr 1
      exact (List.getElem?_eq_some_iff.mp hline).2
    rw [show last + 1 - first = k - first + (last + 1 - (k + 1) + 1) by omega, List.take_add,
      hdrop, List.take_succ_cons]
  rw [CommentBlock.span, hcut, List.map_append, List.map_cons,
    uncomment_of_code (HoldsAt.eq_false hc hline), map_uncomment_eq_bodies h.above,
    map_uncomment_eq_bodies fun i hi hi' => h.below i (by omega) (by omega)]

end

/-! ## Triggers are the opening lines -/

namespace CommentBlock

variable {start marker : Text} {lines : List Text} {k : Nat}

theorem trigger_iff {block : CommentBlock} :
    Trigger start marker lines k block ↔
      Opens start marker lines k ∧ block = around start lines k := by
  constructor
  · intro h
    cases h with
    | comment hrun hk hk' hmarked hfirst =>
      have hs := hrun.surrounds hk hk'
      have haround := (around_eq hs).trans (span_of_run hrun)
      refine ⟨⟨hmarked, fun i hik hi => hfirst i ?_ hik⟩, haround.symm⟩
      rwa [haround] at hi
    | code hline hc hmarked habove hfirst hbelow =>
      have hs := (surrounds_iff_runs hmarked.lt hc).mpr ⟨habove, hbelow⟩
      have haround := (around_eq hs).trans (span_of_code hs hline hc)
      refine ⟨⟨hmarked, fun i hik hi => hfirst i ?_ hik⟩, haround.symm⟩
      rwa [haround] at hi
  · rintro ⟨hopen, rfl⟩
    have hs := hopen.surrounds
    by_cases hc : IsCommentAt start lines k
    · have hrun := hs.isRun hc
      rw [(around_eq hs).trans (span_of_run hrun)]
      exact .comment hrun hs.first_le hs.le_last hopen.1 fun i hi hik => hopen.2 i hik hi
    · obtain ⟨habove, hbelow⟩ := (surrounds_iff_runs hopen.lt_length hc).mp hs
      have hline := List.getElem?_eq_getElem hopen.lt_length
      rw [(around_eq hs).trans (span_of_code hs hline hc)]
      exact .code hline hc hopen.1 habove (fun i hi hik => hopen.2 i hik hi) hbelow

/-- A run with a mark in it is one of the blocks that are kept, whatever was seen before. -/
theorem run_mem_marked {first last : Nat} (hrun : IsRun start lines first last) (hk : first ≤ k)
    (hk' : k ≤ last) (hmarked : IsMarkedAt marker lines k) :
    ⟨bodies start lines first (last + 1), first, last⟩ ∈ marked start marker lines := by
  induction k using Nat.strongRecOn with
  | ind k ih =>
    by_cases hearlier : ∃ i, first ≤ i ∧ i < k ∧ IsMarkedAt marker lines i
    · obtain ⟨i, hi, hik, hmi⟩ := hearlier
      exact ih i hik hi (by omega) hmi
    · have htrigger := trigger_iff.mp (.comment hrun hk hk' hmarked
        fun i hi hik hmi => hearlier ⟨i, hi, hik, hmi⟩)
      rw [marked_eq_map_openers, htrigger.2]
      exact List.mem_map_of_mem (mem_openers.mpr htrigger.1)

end CommentBlock

/-- **The blocks that are read.**  The triggers of a file and the blocks they cause to be read are
paired in the order of the lines: each trigger has its block read once, and no other block is. A
reader is given the directives of the block and the line after it, and its records are kept in that
order. No run with a mark in it is left out. -/
theorem blocks_exact (config : Config) (source : SourceFile) (marker : Text) :
    ∃ ks : List Nat, ks.Pairwise (· < ·) ∧
      ks.length = (Extraction.blocks config source marker).length ∧
      (∀ k block, Trigger config.commentStart marker source.lines k block ↔
        (k, block) ∈ ks.zip (Extraction.blocks config source marker)) ∧
      (∀ {α : Type} (read : DirectiveTable → Place → Except GrammarError α),
        Extraction.records source.path read (Extraction.blocks config source marker) =
          (Extraction.blocks config source marker).filterMap fun block =>
            (read (.ofLines block.lines) ⟨source.path, block.lastLine + 1⟩).toOption) ∧
      ∀ first last k, IsRun config.commentStart source.lines first last → first ≤ k → k ≤ last →
        IsMarkedAt marker source.lines k →
        ⟨bodies config.commentStart source.lines first (last + 1), first, last⟩ ∈
          Extraction.blocks config source marker := by
  have hblocks : Extraction.blocks config source marker =
      (CommentBlock.openers config.commentStart marker source.lines).map
        (CommentBlock.around config.commentStart source.lines) :=
    CommentBlock.marked_eq_map_openers ..
  refine ⟨CommentBlock.openers config.commentStart marker source.lines,
    CommentBlock.openers_pairwise .., by rw [hblocks, List.length_map], fun k block => ?_,
    fun read => rfl, fun first last k hrun hk hk' => CommentBlock.run_mem_marked hrun hk hk'⟩
  have hzip : ∀ ks : List Nat, ks.zip (ks.map (CommentBlock.around config.commentStart
      source.lines)) = ks.map fun k => (k, CommentBlock.around config.commentStart source.lines k)
      := by
    intro ks
    induction ks with
    | nil => rfl
    | cons k ks ih => rw [List.map_cons, List.zip_cons_cons, ih, List.map_cons]
  rw [CommentBlock.trigger_iff, hblocks, hzip, List.mem_map]
  constructor
  · rintro ⟨hopen, rfl⟩
    exact ⟨k, CommentBlock.mem_openers.mpr hopen, rfl⟩
  · rintro ⟨i, hi, heq⟩
    obtain ⟨rfl, rfl⟩ := Prod.mk.inj heq
    exact ⟨CommentBlock.mem_openers.mp hi, rfl⟩

/-! ## Blocks with lines in common -/

namespace CommentBlock

/-- No line is in both blocks. -/
def Apart (b c : CommentBlock) : Prop := b.lastLine < c.firstLine ∨ c.lastLine < b.firstLine

instance (b c : CommentBlock) : Decidable (Apart b c) := inferInstanceAs (Decidable (_ ∨ _))

/-- Line `k` is a marked line outside the comments with no mark in the run above it; below it there
is a run, and line `j` is a marked line in that run or directly behind it. -/
structure Overlap (start marker : Text) (lines : List Text) (k j : Nat) : Prop where
  marked : IsMarkedAt marker lines k
  code : ¬ IsCommentAt start lines k
  above : ∀ i, i < k → (∀ m, i ≤ m → m < k → IsCommentAt start lines m) →
    ¬ IsMarkedAt marker lines i
  below : IsCommentAt start lines (k + 1)
  lt : k < j
  between : ∀ m, k < m → m < j → IsCommentAt start lines m
  marked' : IsMarkedAt marker lines j

variable {start marker : Text} {lines : List Text} {j k : Nat}

theorem Overlap.opens (h : Overlap start marker lines k j) : Opens start marker lines k :=
  ⟨h.marked, fun i hik hi => h.above i hik fun m hm hmk =>
    (surrounds_around start h.marked.lt).above m (Nat.le_trans hi hm) hmk⟩

/-- A block that reaches into the next one has an overlap at its opening line. -/
theorem overlap_of_not_apart (hk : Opens start marker lines k) (hj : Opens start marker lines j)
    (hkj : k < j) (h : (around start lines j).firstLine ≤ (around start lines k).lastLine) :
    Overlap start marker lines k j := by
  have hsk := hk.surrounds
  have hsj := hj.surrounds
  have hlt := lt_firstLine_of_opens hk.1 hj hkj
  have hbetween : ∀ m, k < m → m < j → IsCommentAt start lines m := by
    intro m hkm hmj
    rcases Nat.lt_or_ge m (around start lines j).firstLine with hm | hm
    · exact hsk.below m hkm (by omega)
    · exact hsj.above m hm hmj
  -- the run of `j` begins directly below `k`, since all lines from `k` to it are comments
  have hcode : ¬ IsCommentAt start lines k := by
    intro hc
    refine hsj.before ((around start lines j).firstLine - 1) (by omega) ?_
    rcases Nat.eq_or_lt_of_le (show k ≤ (around start lines j).firstLine - 1 by omega) with heq | hm
    · rwa [← heq]
    · exact hsk.below _ hm (by omega)
  refine ⟨hk.1, hcode, fun i hik hi => hk.2 i hik ?_, hsk.below (k + 1) (by omega) (by omega), hkj,
    hbetween, hj.1⟩
  rcases Nat.lt_or_ge i (around start lines k).firstLine with hm | hm
  · exact absurd (hi ((around start lines k).firstLine - 1) (by omega)
      (by have := hsk.first_le; omega)) (hsk.before _ (by omega))
  · exact hm

/-- At an overlap some later block begins inside the block of `k`. -/
theorem Overlap.exists_opens (h : Overlap start marker lines k j) :
    ∃ i, Opens start marker lines i ∧ k < i ∧
      (around start lines i).firstLine ≤ (around start lines k).lastLine := by
  induction j using Nat.strongRecOn with
  | ind j ih =>
    by_cases hearlier : ∃ i, k < i ∧ i < j ∧ IsMarkedAt marker lines i
    · obtain ⟨i, hki, hij, hmarked⟩ := hearlier
      exact ih i hij ⟨h.marked, h.code, h.above, h.below, hki,
        fun m hkm hmi => h.between m hkm (by omega), hmarked⟩
    · have hsj := surrounds_around start h.marked'.lt
      have hsk := surrounds_around start h.marked.lt
      have hbegin : (around start lines j).firstLine = k + 1 := by
        rcases Nat.lt_trichotomy (around start lines j).firstLine (k + 1) with hm | hm | hm
        · exact absurd (hsj.above k (by omega) h.lt) h.code
        · exact hm
        · have hle := hsj.first_le
          exact absurd (h.between ((around start lines j).firstLine - 1) (by omega) (by omega))
            (hsj.before _ (by omega))
      have hlast : k + 1 ≤ (around start lines k).lastLine := by
        rcases Nat.eq_or_lt_of_le hsk.le_last with heq | hm
        · exact absurd (heq ▸ h.below) hsk.after
        · exact hm
      exact ⟨j, ⟨h.marked', fun i hij hi hmi => hearlier ⟨i, by omega, hij, hmi⟩⟩, h.lt,
        by omega⟩

/-- In an increasing list a relation between neighbours near and far holds of any two elements. -/
theorem rel_of_pairwise {r : Nat → Nat → Prop} {ks : List Nat} (hr : ks.Pairwise r)
    (hlt : ks.Pairwise (· < ·)) (hk : k ∈ ks) (hj : j ∈ ks) (hkj : k < j) : r k j := by
  obtain ⟨m, hm, rfl⟩ := List.getElem_of_mem hk
  obtain ⟨n, hn, rfl⟩ := List.getElem_of_mem hj
  rcases Nat.lt_trichotomy m n with hmn | rfl | hnm
  · exact List.pairwise_iff_getElem.mp hr m n hm hn hmn
  · omega
  · have := List.pairwise_iff_getElem.mp hlt n m hn hm hnm
    omega

/-- The blocks that are kept have no line in common, overlaps excepted. -/
theorem marked_apart_iff (start marker : Text) (lines : List Text) :
    (marked start marker lines).Pairwise Apart ↔ ∀ k j, ¬ Overlap start marker lines k j := by
  rw [marked_eq_map_openers, List.pairwise_map]
  constructor
  · intro hapart k j hoverlap
    obtain ⟨i, hi, hki, hle⟩ := hoverlap.exists_opens
    have hsi := hi.surrounds
    have hsk := hoverlap.opens.surrounds
    rcases rel_of_pairwise hapart (openers_pairwise start marker lines)
      (mem_openers.mpr hoverlap.opens) (mem_openers.mpr hi) hki with hm | hm
    · omega
    · have := hsi.le_last
      have := hsk.first_le
      omega
  · intro hnone
    refine (openers_pairwise start marker lines).imp_of_mem fun {k j} hk hj hkj => ?_
    rcases Nat.lt_or_ge (around start lines k).lastLine (around start lines j).firstLine with
      hm | hm
    · exact .inl hm
    · exact absurd (overlap_of_not_apart (mem_openers.mp hk) (mem_openers.mp hj) hkj hm)
        (hnone k j)

end CommentBlock

/-- **Blocks with lines in common.**  The first lines of the blocks increase, so that none is read
twice. No line is in two of them exactly if the file has no overlap. -/
theorem blocks_apart_iff (config : Config) (source : SourceFile) (marker : Text) :
    (Extraction.blocks config source marker).Pairwise (fun b c => b.firstLine < c.firstLine) ∧
      ((Extraction.blocks config source marker).Pairwise CommentBlock.Apart ↔
        ∀ k j, ¬ CommentBlock.Overlap config.commentStart marker source.lines k j) :=
  ⟨CommentBlock.firstLine_pairwise .., CommentBlock.marked_apart_iff ..⟩

/-- A file in which a line of code contains the marker, on top of a run that contains it too. -/
def markedAboveRun : SourceFile :=
  .ofText "b.go" "x := \"@route\"\n// @description Lists B\n// @route B GET /b\n"

/-- The run is read as a part of the block of the line above it, and again as a block. -/
theorem markedAboveRun_read_twice :
    ¬ (Extraction.blocks {} markedAboveRun "@route").Pairwise CommentBlock.Apart ∧
      (FileRecords.ofSource {} markedAboveRun).routes =
        List.replicate 2 ⟨"B", "GET", "/b", some "Lists B", [], [], [], ⟨"b.go", 3⟩⟩ := by
  decide +kernel

end ApiAnnotations

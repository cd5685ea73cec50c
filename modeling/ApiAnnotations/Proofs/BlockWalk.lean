import ApiAnnotations.Proofs.BlockSearch

/-! # Walking through a block

The block around a line, found by looking at one line after the other. A look at a line that the
file does not have fails, so that a walk that gives a block has looked at lines of the file only.

* `climb`, `descend` : the first and the last line that are reached from a line; `linesBetween?`
  takes the lines from one to the other, and `walk?` puts them together.
* `walk?_eq` : the walk gives the block around each line of the file, and fails for all others.
* `IsBlockAround start lines k block` : what the block around line `k` is, said with indices.
  `IsBlockAround.unique` : no other block is.
* `around_maximal` : the walk succeeds, its block is the one around its line, and it is also the one
  around each other line in it, unless it was asked for at a line outside the comments. -/

namespace ApiAnnotations.CommentBlock

/-! ## One line after the other -/

/-- The first line reached from line `i`: while there is a line above, look at it, and go there if
it is a comment line. -/
def climb (start : Text) (lines : List Text) : Nat → Option Nat
  | 0 => some 0
  | i + 1 => lines[i]?.bind fun line =>
      if isCommentLine start line then climb start lines i else some (i + 1)

/-- The last line reached from line `i`: while there is a line below, look at it, and go there if
it is a comment line. -/
def descend (start : Text) (lines : List Text) (i : Nat) : Option Nat :=
  if i + 1 < lines.length then
    lines[i + 1]?.bind fun line =>
      if isCommentLine start line then descend start lines (i + 1) else some i
  else some i
termination_by lines.length - i

/-- The lines from `first` on and below `stop`, if the file has them all. -/
def linesBetween? (lines : List Text) (first stop : Nat) : Option (List Text) :=
  if first ≤ stop ∧ stop ≤ lines.length then some ((lines.drop first).take (stop - first)) else none

/-- The block found by walking up and down from line `k`. -/
def walk? (start : Text) (lines : List Text) (k : Nat) : Option CommentBlock :=
  (climb start lines k).bind fun first => (descend start lines k).bind fun last =>
    (linesBetween? lines first (last + 1)).map fun body => ⟨body.map (uncomment start), first, last⟩

section

variable {start : Text} {lines : List Text} {k : Nat}

theorem climb_eq (start : Text) (h : k ≤ lines.length) :
    climb start lines k = some (k - runAbove start lines k) := by
  induction k with
  | zero => rw [climb, Nat.zero_sub]
  | succ k ih =>
    have hk : k < lines.length := by omega
    rw [climb, List.getElem?_eq_getElem hk, Option.bind_some, HoldsAt.ite_getElem hk,
      ih (Nat.le_of_lt hk), runAbove_succ hk]
    split
    · rw [Nat.add_sub_add_right]
    · rw [Nat.sub_zero]

theorem runBelow_eq (start : Text) (lines : List Text) (k : Nat) :
    runBelow start lines k =
      if IsCommentAt start lines (k + 1) then runBelow start lines (k + 1) + 1 else 0 := by
  unfold runBelow
  by_cases hk : k + 1 < lines.length
  · rw [List.drop_eq_getElem_cons hk, List.takeWhile_cons, HoldsAt.ite_getElem hk]
    split
    · rw [List.length_cons]
    · rw [List.length_nil]
  · rw [List.drop_eq_nil_of_le (by omega), if_neg fun hc => hk hc.lt]
    rfl

/-- The walk downwards stops at the last line of the file at the latest, and so never fails. -/
theorem descend_eq (start : Text) (lines : List Text) (k : Nat) :
    descend start lines k = some (k + runBelow start lines k) := by
  fun_induction descend start lines k with
  | case1 k hk ih =>
    rw [List.getElem?_eq_getElem hk, Option.bind_some, HoldsAt.ite_getElem hk, ih,
      runBelow_eq start lines k]
    split
    · rw [Nat.add_right_comm, Nat.add_assoc]
    · rw [Nat.add_zero]
  | case2 k hk => rw [runBelow_eq, if_neg fun hc => hk hc.lt, Nat.add_zero]

/-- **The walk** from a line of the file gives the block around it; from any other it fails. -/
theorem walk?_eq (start : Text) (lines : List Text) (k : Nat) :
    walk? start lines k = if k < lines.length then some (around start lines k) else none := by
  by_cases hk : k < lines.length
  · have hlast : k + runBelow start lines k < lines.length := (surrounds_around start hk).last_lt
    rw [walk?, climb_eq start (Nat.le_of_lt hk), descend_eq, Option.bind_some, Option.bind_some,
      linesBetween?, if_pos (by omega), if_pos hk]
    rfl
  · rw [if_neg hk, walk?]
    refine Option.bind_eq_none_iff.mpr fun first _ => ?_
    rw [descend_eq, Option.bind_some, linesBetween?, if_neg (by omega), Option.map_none]

end

/-! ## What the block around a line is -/

/-- Line `i` is the comment start, which is not empty, and what follows it. -/
def CarriesAt (start : Text) (lines : List Text) (i : Nat) : Prop :=
  start ≠ [] ∧ ∃ rest, lines[i]? = some (start ++ rest)

/-- The block is line `k` with all the lines directly above and below it that carry the comment
start. Its text is these lines, without one comment start where they carry it. -/
structure IsBlockAround (start : Text) (lines : List Text) (k : Nat) (block : CommentBlock) :
    Prop where
  first_le : block.firstLine ≤ k
  le_last : k ≤ block.lastLine
  last_lt : block.lastLine < lines.length
  carries : ∀ i, block.firstLine ≤ i → i ≤ block.lastLine → i ≠ k → CarriesAt start lines i
  before : block.firstLine = 0 ∨ ¬ CarriesAt start lines (block.firstLine - 1)
  after : block.lastLine + 1 = lines.length ∨ ¬ CarriesAt start lines (block.lastLine + 1)
  length_eq : block.lines.length = block.lastLine - block.firstLine + 1
  uncommented : ∀ i rest, i < block.lines.length → start ≠ [] →
    lines[block.firstLine + i]? = some (start ++ rest) → block.lines[i]? = some rest
  unchanged : ∀ i, i < block.lines.length → ¬ CarriesAt start lines (block.firstLine + i) →
    block.lines[i]? = lines[block.firstLine + i]?

section

variable {start : Text} {lines : List Text} {i j k first last : Nat} {b c : CommentBlock}

theorem carriesAt_iff : CarriesAt start lines i ↔ IsCommentAt start lines i := by
  constructor
  · rintro ⟨hstart, rest, hline⟩
    exact ⟨_, hline, isCommentLine_iff.mpr ⟨hstart, rest, rfl⟩⟩
  · rintro ⟨line, hline, hc⟩
    obtain ⟨hstart, rest, rfl⟩ := isCommentLine_iff.mp hc
    exact ⟨hstart, rest, hline⟩

theorem getElem?_span (h : i < (span start lines first last).lines.length) :
    (span start lines first last).lines[i]? = lines[first + i]?.map (uncomment start) := by
  have hi : i < last + 1 - first := by
    rw [span, List.length_map, List.length_take] at h
    omega
  rw [span, List.getElem?_map, List.getElem?_take_of_lt hi, List.getElem?_drop]

theorem length_span (start : Text) (first : Nat) (h : last < lines.length) :
    (span start lines first last).lines.length = last + 1 - first := by
  rw [span, List.length_map, List.length_take, List.length_drop]
  omega

theorem map_uncomment_append {rest : Text} (h : lines[i]? = some (start ++ rest)) :
    lines[i]?.map (uncomment start) = some rest := by
  rw [h, Option.map_some, uncomment_append]

theorem map_uncomment_of_not_carriesAt (h : ¬ CarriesAt start lines i) :
    lines[i]?.map (uncomment start) = lines[i]? := by
  cases hline : lines[i]? with
  | none => rfl
  | some line =>
    have hcode := HoldsAt.eq_false (mt carriesAt_iff.mpr h) hline
    rw [Option.map_some, uncomment_of_code hcode]

/-- The lines around a line, uncommented, are the block around it. -/
theorem isBlockAround_span (h : Surrounds start lines k first last) :
    IsBlockAround start lines k (span start lines first last) := by
  have hfirst := h.first_le
  have hlast := h.le_last
  refine
    { first_le := hfirst
      le_last := hlast
      last_lt := h.last_lt
      carries := fun i hi hi' hik => carriesAt_iff.mpr ?carries
      before := forall_not_before_iff.mp fun i hi hc => h.before i hi (carriesAt_iff.mp hc)
      after := .inr fun hc => h.after (carriesAt_iff.mp hc)
      length_eq := (length_span start first h.last_lt).trans ?length
      uncommented := fun i rest hi _ hrest => (getElem?_span hi).trans (map_uncomment_append hrest)
      unchanged := fun i hi hc => (getElem?_span hi).trans (map_uncomment_of_not_carriesAt hc) }
  case carries =>
    rcases Nat.lt_or_gt_of_ne hik with hlt | hgt
    · exact h.above i hi hlt
    · exact h.below i hgt hi'
  case length =>
    show last + 1 - first = last - first + 1
    omega

/-- Around a line that has a block there are the lines of that block. -/
theorem IsBlockAround.surrounds (h : IsBlockAround start lines k b) :
    Surrounds start lines k b.firstLine b.lastLine := by
  have hfirst := h.first_le
  have hlast := h.le_last
  refine
    { first_le := hfirst
      le_last := hlast
      last_lt := h.last_lt
      above := fun i hi hik => carriesAt_iff.mp (h.carries i hi (by omega) (by omega))
      below := fun i hki hi => carriesAt_iff.mp (h.carries i (by omega) hi (by omega))
      before := fun i hi hc => forall_not_before_iff.mpr h.before i hi (carriesAt_iff.mpr hc)
      after := fun hc => ?after }
  rcases h.after with hend | hnot
  · exact absurd hc.lt (by omega)
  · exact hnot (carriesAt_iff.mpr hc)

/-- Only one block is around a line. -/
theorem IsBlockAround.unique (hb : IsBlockAround start lines k b)
    (hc : IsBlockAround start lines k c) : b = c := by
  have hfirst : c.firstLine = b.firstLine :=
    hb.surrounds.first_eq hc.surrounds hb.first_le (Nat.le_refl k)
  have hlast : c.lastLine = b.lastLine :=
    hb.surrounds.last_eq hc.surrounds (Nat.le_refl k) hb.le_last
  obtain ⟨body, first, last⟩ := b
  obtain ⟨body', first', last'⟩ := c
  obtain rfl : first' = first := hfirst
  obtain rfl : last' = last := hlast
  have hlength : body'.length = body.length := hc.length_eq.trans hb.length_eq.symm
  congr 1
  refine List.ext_getElem? fun i => ?_
  by_cases hi : i < body.length
  · have hi' : i < body'.length := by omega
    by_cases hcarries : CarriesAt start lines (first' + i)
    · obtain ⟨hstart, rest, hrest⟩ := hcarries
      exact (hb.uncommented i rest hi hstart hrest).trans
        (hc.uncommented i rest hi' hstart hrest).symm
    · exact (hb.unchanged i hi hcarries).trans (hc.unchanged i hi' hcarries).symm
  · rw [List.getElem?_eq_none (by omega), List.getElem?_eq_none (by omega)]

/-- A line of the block around line `k` has the same block around it if it is line `k`, or if line
`k` is a comment line, and in no other case. -/
theorem around_eq_around_iff (hk : k < lines.length) (hj : (around start lines k).firstLine ≤ j)
    (hj' : j ≤ (around start lines k).lastLine) :
    around start lines j = around start lines k ↔ j = k ∨ CarriesAt start lines k := by
  have hs := surrounds_around start hk
  have hsj := surrounds_around start (Nat.lt_of_le_of_lt hj' hs.last_lt)
  constructor
  · intro heq
    rw [heq] at hsj
    rcases Nat.lt_trichotomy j k with hlt | rfl | hgt
    · exact .inr (carriesAt_iff.mpr (hsj.below k hlt hs.le_last))
    · exact .inl rfl
    · exact .inr (carriesAt_iff.mpr (hsj.above k hs.first_le hgt))
  · rintro (rfl | hc)
    · rfl
    · have hrun := hs.isRun (carriesAt_iff.mp hc)
      exact (around_eq (hrun.surrounds hj hj')).trans (around_eq hs).symm

end

/-- **The maximal block.**  From a line of the file the walk looks at lines of the file only, and
gives the block around the line. That block is the line with the comment lines on both sides of it,
all of them, and nothing else is. The other lines in it have the same block around them if the line
is itself a comment line, and another one if it is not. -/
theorem around_maximal (start : Text) (lines : List Text) (k : Nat) (hk : k < lines.length) :
    walk? start lines k = some (around start lines k) ∧
      (∀ block, IsBlockAround start lines k block ↔ block = around start lines k) ∧
      ∀ j, (around start lines k).firstLine ≤ j → j ≤ (around start lines k).lastLine →
        (around start lines j = around start lines k ↔ j = k ∨ CarriesAt start lines k) := by
  have hs := surrounds_around start hk
  have hblock : IsBlockAround start lines k (around start lines k) := by
    rw [around_eq hs]
    exact isBlockAround_span hs
  refine ⟨by rw [walk?_eq, if_pos hk], fun block => ⟨fun h => h.unique hblock, ?_⟩, fun j hj hj' =>
    around_eq_around_iff hk hj hj'⟩
  rintro rfl
  exact hblock

/-- A line of code between comment lines, one of them empty and one with two comment starts; the
lines beyond them lack the blank of the comment start. -/
def codeBetween : List Text := ["//", "// a", "// ", "x := 1", "// // b", "//c"]

theorem around_maximal_codeBetween :
    3 < codeBetween.length ∧
      walk? "// " codeBetween 3 = some (around "// " codeBetween 3) ∧
      (∀ block, IsBlockAround "// " codeBetween 3 block ↔ block = around "// " codeBetween 3) ∧
      (∀ j, (around "// " codeBetween 3).firstLine ≤ j →
        j ≤ (around "// " codeBetween 3).lastLine →
        (around "// " codeBetween j = around "// " codeBetween 3 ↔
          j = 3 ∨ CarriesAt "// " codeBetween 3)) ∧
      around "// " codeBetween 3 = ⟨["a", "", "x := 1", "// b"], 1, 4⟩ := by
  have hk : 3 < codeBetween.length := by decide
  obtain ⟨hwalk, hblock, hsame⟩ := around_maximal "// " codeBetween 3 hk
  exact ⟨hk, hwalk, hblock, hsame, by decide +kernel⟩

end ApiAnnotations.CommentBlock

import ApiAnnotations.Proofs.CommentRuns

/-! # Lines that open a block

Several marked lines can have blocks with the same first line, of which only the earliest is kept.
A marked line opens its block if it is the first marked line in it.

* `marked_eq_map_openers` : the blocks that are kept are the blocks around the opening lines.
* `lt_firstLine_of_opens` : a block begins below the opening line of the one before it, so that the
  first lines increase (`firstLine_pairwise`). -/

namespace ApiAnnotations.CommentBlock

variable {start marker : Text} {lines : List Text} {j k : Nat}

/-- Line `k` is marked, and no line above it in the block around it is. -/
def Opens (start marker : Text) (lines : List Text) (k : Nat) : Prop :=
  IsMarkedAt marker lines k ∧
    ∀ i, i < k → (around start lines k).firstLine ≤ i → ¬ IsMarkedAt marker lines i

instance : Decidable (Opens start marker lines k) := inferInstanceAs (Decidable (_ ∧ _))

/-- The lines that open a block, in order. -/
def openers (start marker : Text) (lines : List Text) : List Nat :=
  (List.range lines.length).filter (fun k => Opens start marker lines k)

theorem Opens.lt_length (h : Opens start marker lines k) : k < lines.length := h.1.lt

theorem Opens.surrounds (h : Opens start marker lines k) :
    Surrounds start lines k (around start lines k).firstLine (around start lines k).lastLine :=
  surrounds_around start h.lt_length

theorem mem_openers : k ∈ openers start marker lines ↔ Opens start marker lines k := by
  simp only [openers, List.mem_filter, List.mem_range, decide_eq_true_eq, and_iff_right_iff_imp]
  exact Opens.lt_length

theorem openers_pairwise (start marker : Text) (lines : List Text) :
    (openers start marker lines).Pairwise (· < ·) :=
  List.pairwise_lt_range.filter _

/-! ## Indices of the marked lines -/

theorem index_allFrom (marker : Text) (n : Nat) (lines : List Text) :
    (MarkedLine.allFrom marker n lines).map MarkedLine.index =
      ((List.range lines.length).filter (fun i => IsMarkedAt marker lines i)).map (n + ·) := by
  induction lines generalizing n with
  | nil => rfl
  | cons line lines ih =>
    have htail : (fun i => decide (IsMarkedAt marker (line :: lines) (i + 1))) =
        fun i => decide (IsMarkedAt marker lines i) := by
      funext i
      exact decide_eq_decide.mpr HoldsAt.cons_succ
    have hshift : ((n + 1) + ·) = (n + ·) ∘ Nat.succ := by
      funext i
      show n + 1 + i = n + (i + 1)
      omega
    rw [List.length_cons, List.range_succ_eq_map, List.filter_cons, List.filter_map,
      Function.comp_def, htail]
    cases h : Text.contains marker line
    · simp [MarkedLine.allFrom, HoldsAt, h, ih, hshift]
    · simp [MarkedLine.allFrom, HoldsAt, h, ih, hshift]

/-! ## Distinct blocks -/

/-- Of blocks around increasing lines, those are kept whose first line is neither among `seen` nor
the first line of an earlier one. -/
theorem distinct_map (f : Nat → CommentBlock) (seen ks : List Nat) (h : ks.Pairwise (· < ·)) :
    distinct seen (ks.map f) =
      (ks.filter fun k => decide ((f k).firstLine ∉ seen ∧
        ∀ j ∈ ks, j < k → (f j).firstLine ≠ (f k).firstLine)).map f := by
  induction ks generalizing seen with
  | nil => rfl
  | cons k ks ih =>
    obtain ⟨hk, hks⟩ := List.pairwise_cons.mp h
    have hself : (∀ j ∈ k :: ks, j < k → (f j).firstLine ≠ (f k).firstLine) := by
      intro j hj hjk
      rcases List.mem_cons.mp hj with rfl | hj
      · omega
      · exact absurd (hk j hj) (by omega)
    rw [List.map_cons, distinct, List.filter_cons]
    by_cases hs : (f k).firstLine ∈ seen
    · rw [if_pos hs, if_neg (by simp [hs]), ih seen hks]
      congr 1
      apply List.filter_congr
      intro i hi
      refine decide_eq_decide.mpr ⟨fun ⟨hns, hall⟩ => ⟨hns, fun j hj hji => ?_⟩,
        fun ⟨hns, hall⟩ => ⟨hns, fun j hj hji => hall j (List.mem_cons_of_mem _ hj) hji⟩⟩
      rcases List.mem_cons.mp hj with rfl | hj
      · exact fun heq => hns (heq ▸ hs)
      · exact hall j hj hji
    · rw [if_neg hs, if_pos (by simpa [hs] using hself), List.map_cons, ih _ hks]
      congr 2
      apply List.filter_congr
      intro i hi
      refine decide_eq_decide.mpr ⟨fun ⟨hns, hall⟩ => ?_, fun ⟨hns, hall⟩ => ?_⟩
      · rw [List.mem_cons, not_or] at hns
        refine ⟨hns.2, fun j hj hji => ?_⟩
        rcases List.mem_cons.mp hj with rfl | hj
        · exact fun heq => hns.1 heq.symm
        · exact hall j hj hji
      · refine ⟨?_, fun j hj hji => hall j (List.mem_cons_of_mem _ hj) hji⟩
        rw [List.mem_cons, not_or]
        exact ⟨fun heq => hall k (List.mem_cons_self ..) (hk i hi) heq.symm, hns⟩

/-- A marked line opens its block if the blocks around the marked lines above it begin
elsewhere. -/
theorem opens_iff (hk : IsMarkedAt marker lines k) :
    Opens start marker lines k ↔ ∀ j, IsMarkedAt marker lines j → j < k →
      (around start lines j).firstLine ≠ (around start lines k).firstLine := by
  have hsk := surrounds_around start hk.lt
  constructor
  · rintro ⟨-, hopen⟩ j hj hjk heq
    exact hopen j hjk (heq ▸ (surrounds_around start hj.lt).first_le) hj
  · refine fun hall => ⟨hk, fun i hik hi hmarked => hall i hmarked hik ?_⟩
    exact hsk.first_eq (surrounds_around start hmarked.lt) hi (Nat.le_of_lt hik)

/-- **The blocks that are kept** are the blocks around the opening lines. -/
theorem marked_eq_map_openers (start marker : Text) (lines : List Text) :
    marked start marker lines = (openers start marker lines).map (around start lines) := by
  have hindices : (MarkedLine.allFrom marker 0 lines).map (fun m => around start lines m.index) =
      ((List.range lines.length).filter (fun i => IsMarkedAt marker lines i)).map
        (around start lines) := by
    have h := congrArg (List.map (around start lines)) (index_allFrom marker 0 lines)
    simpa [Function.comp_def] using h
  rw [marked, hindices, distinct_map _ _ _ (List.pairwise_lt_range.filter _), List.filter_filter,
    openers]
  congr 1
  apply List.filter_congr
  intro k _
  rw [← Bool.decide_and]
  refine decide_eq_decide.mpr ⟨fun ⟨⟨_, hall⟩, hk⟩ => ?_, fun hopen => ?_⟩
  · refine (opens_iff hk).mpr fun j hj hjk => hall j ?_ hjk
    simpa [List.mem_filter] using ⟨hj.lt, hj⟩
  · refine ⟨⟨List.not_mem_nil, fun j hj hjk => ?_⟩, hopen.1⟩
    exact (opens_iff hopen.1).mp hopen j (by simpa using (List.mem_filter.mp hj).2) hjk

/-- A block begins below the opening line of every earlier block. -/
theorem lt_firstLine_of_opens (hj : IsMarkedAt marker lines j) (hk : Opens start marker lines k)
    (hjk : j < k) : j < (around start lines k).firstLine := by
  rcases Nat.lt_or_ge j (around start lines k).firstLine with hlt | hge
  · exact hlt
  · exact absurd hj (hk.2 j hjk hge)

/-- The first lines of the blocks increase; in particular no block is kept twice. -/
theorem firstLine_pairwise (start marker : Text) (lines : List Text) :
    (marked start marker lines).Pairwise (fun b c => b.firstLine < c.firstLine) := by
  rw [marked_eq_map_openers, List.pairwise_map]
  refine (openers_pairwise start marker lines).imp_of_mem fun {j k} hj hk hjk => ?_
  have hlt := lt_firstLine_of_opens (mem_openers.mp hj).1 (mem_openers.mp hk) hjk
  have hle := (mem_openers.mp hj).surrounds.first_le
  omega

end ApiAnnotations.CommentBlock

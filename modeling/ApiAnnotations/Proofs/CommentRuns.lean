import ApiAnnotations.CommentBlock

/-! # Comment runs

Where the block around a line begins and ends, said of the indices of lines.

* `HoldsAt p s i` : the element at index `i` exists and satisfies `p`; `IsCommentAt` and
  `IsMarkedAt` are its two uses.
* `Surrounds start lines k first last` : the lines from `first` to `last` are line `k` with all the
  comment lines directly above and below it. `surrounds_around` and `around_eq` : they are the lines
  of the block around `k`, and of no other block. -/

namespace ApiAnnotations

/-- The element at index `i` exists and satisfies `p`. -/
def HoldsAt {α : Type} (p : α → Bool) (s : List α) (i : Nat) : Prop :=
  ∃ a ∈ s[i]?, p a = true

/-- Line `i` is a comment line. -/
abbrev IsCommentAt (start : Text) (lines : List Text) (i : Nat) : Prop :=
  HoldsAt (isCommentLine start) lines i

/-- Line `i` contains the marker. -/
abbrev IsMarkedAt (marker : Text) (lines : List Text) (i : Nat) : Prop :=
  HoldsAt (Text.contains marker) lines i

namespace HoldsAt

variable {α : Type} {p : α → Bool} {s t : List α} {i : Nat}

instance : Decidable (HoldsAt p s i) :=
  decidable_of_iff ((s[i]?).any p = true) (by simp [HoldsAt, Option.any_eq_true])

theorem iff_getElem (h : i < s.length) : HoldsAt p s i ↔ p s[i] = true := by
  simp [HoldsAt, List.getElem?_eq_getElem h]

theorem eq_false {a : α} (h : ¬ HoldsAt p s i) (ha : s[i]? = some a) : p a = false :=
  Bool.eq_false_iff.mpr fun hp => h ⟨a, ha, hp⟩

/-- A test of the element at an index that is there. -/
theorem ite_getElem {β : Type} (h : i < s.length) (x y : β) :
    (if p s[i] = true then x else y) = if HoldsAt p s i then x else y :=
  ite_congr (propext (iff_getElem h).symm) (fun _ => rfl) (fun _ => rfl)

theorem lt (h : HoldsAt p s i) : i < s.length := by
  obtain ⟨a, ha, -⟩ := h
  exact (List.getElem?_eq_some_iff.mp ha).1

theorem append_left (h : i < s.length) : HoldsAt p (s ++ t) i ↔ HoldsAt p s i := by
  unfold HoldsAt
  rw [List.getElem?_append_left h]

theorem append_right : HoldsAt p (s ++ t) (s.length + i) ↔ HoldsAt p t i := by
  unfold HoldsAt
  rw [List.getElem?_append_right (Nat.le_add_right ..), Nat.add_sub_cancel_left]

theorem cons_succ {a : α} : HoldsAt p (a :: s) (i + 1) ↔ HoldsAt p s i := by
  simp [HoldsAt]

theorem drop {n : Nat} : HoldsAt p (s.drop n) i ↔ HoldsAt p s (n + i) := by
  unfold HoldsAt
  rw [List.getElem?_drop]

theorem of_forall (h : ∀ a ∈ s, p a = true) (hi : i < s.length) : HoldsAt p s i :=
  (iff_getElem hi).mpr (h _ (List.getElem_mem hi))

theorem not_of_forall (h : ∀ a ∈ s, p a = false) : ¬ HoldsAt p s i := by
  rintro ⟨a, ha, hp⟩
  rw [h a (List.mem_of_getElem? ha)] at hp
  exact Bool.false_ne_true hp

end HoldsAt

/-- The elements taken while `p` holds satisfy it, and the one after them does not. -/
theorem takeWhile_length_spec {α : Type} (p : α → Bool) (s : List α) :
    (∀ i, i < (s.takeWhile p).length → HoldsAt p s i) ∧
      ¬ HoldsAt p s (s.takeWhile p).length := by
  induction s with
  | nil => simp [HoldsAt]
  | cons a s ih =>
    cases ha : p a with
    | false => simp [ha, HoldsAt]
    | true =>
      rw [List.takeWhile_cons_of_pos ha, List.length_cons]
      refine ⟨fun i hi => ?_, fun h => ih.2 (HoldsAt.cons_succ.mp h)⟩
      cases i with
      | zero => exact ⟨a, rfl, ha⟩
      | succ i => exact HoldsAt.cons_succ.mpr (ih.1 i (by omega))

theorem exists_of_mem_take_drop {α : Type} {s : List α} {a : α} {first n : Nat}
    (h : a ∈ (s.drop first).take n) : ∃ i, first ≤ i ∧ i < first + n ∧ s[i]? = some a := by
  obtain ⟨i, hi, rfl⟩ := List.getElem_of_mem h
  simp only [List.length_take, List.length_drop] at hi
  refine ⟨first + i, by omega, by omega, ?_⟩
  rw [List.getElem_take, List.getElem_drop, List.getElem?_eq_getElem]

/-- Nothing with `P` directly before `n`: there is nothing before it, or what there is lacks `P`. -/
theorem forall_not_before_iff {P : Nat → Prop} {n : Nat} :
    (∀ i, i + 1 = n → ¬ P i) ↔ n = 0 ∨ ¬ P (n - 1) := by
  cases n with
  | zero => simp
  | succ n => simp

/-- The lines from `first` to `last` are line `k` with the comment lines directly above and below
it, all of them. -/
structure Surrounds (start : Text) (lines : List Text) (k first last : Nat) : Prop where
  first_le : first ≤ k
  le_last : k ≤ last
  last_lt : last < lines.length
  above : ∀ i, first ≤ i → i < k → IsCommentAt start lines i
  below : ∀ i, k < i → i ≤ last → IsCommentAt start lines i
  before : ∀ i, i + 1 = first → ¬ IsCommentAt start lines i
  after : ¬ IsCommentAt start lines (last + 1)

namespace Surrounds

variable {start : Text} {lines : List Text} {k j first last first' last' : Nat}

/-- The lines from the first line around `k` up to `k` have the same first line around them. -/
theorem first_eq (h : Surrounds start lines k first last)
    (h' : Surrounds start lines j first' last') (hj : first ≤ j) (hjk : j ≤ k) :
    first' = first := by
  have hle := h'.first_le
  rcases Nat.lt_trichotomy first' first with hlt | heq | hgt
  · exact absurd (h'.above (first - 1) (by omega) (by omega)) (h.before _ (by omega))
  · exact heq
  · exact absurd (h.above (first' - 1) (by omega) (by omega)) (h'.before _ (by omega))

/-- The lines from `k` to the last line around it have the same last line around them. -/
theorem last_eq (h : Surrounds start lines k first last)
    (h' : Surrounds start lines j first' last') (hkj : k ≤ j) (hj : j ≤ last) :
    last' = last := by
  have hle := h'.le_last
  rcases Nat.lt_trichotomy last' last with hlt | heq | hgt
  · exact absurd (h.below (last' + 1) (by omega) (by omega)) h'.after
  · exact heq
  · exact absurd (h'.below (last + 1) (by omega) (by omega)) h.after

end Surrounds

namespace CommentBlock

variable {start : Text} {lines : List Text} {k first last : Nat}

theorem runAbove_succ (h : k < lines.length) :
    runAbove start lines (k + 1) =
      if IsCommentAt start lines k then runAbove start lines k + 1 else 0 := by
  have hreverse : (lines.take (k + 1)).reverse = lines[k] :: (lines.take k).reverse := by
    rw [List.take_add_one, List.getElem?_eq_getElem h]
    simp
  unfold runAbove
  rw [hreverse, List.takeWhile_cons, HoldsAt.ite_getElem h]
  split
  · rw [List.length_cons]
  · rw [List.length_nil]

/-- The lines counted by `runAbove` are comment lines, and the one above them is not. -/
theorem runAbove_spec (start : Text) (h : k ≤ lines.length) :
    runAbove start lines k ≤ k ∧
      (∀ i, k - runAbove start lines k ≤ i → i < k → IsCommentAt start lines i) ∧
      ∀ i, i + 1 = k - runAbove start lines k → ¬ IsCommentAt start lines i := by
  induction k with
  | zero => exact ⟨by simp [runAbove], fun i _ hi => by omega, fun i hi => by omega⟩
  | succ k ih =>
    obtain ⟨hle, habove, hbefore⟩ := ih (by omega)
    rw [runAbove_succ (by omega)]
    by_cases hc : IsCommentAt start lines k
    · rw [if_pos hc, Nat.add_sub_add_right]
      refine ⟨by omega, fun i hi hik => ?_, hbefore⟩
      rcases Nat.lt_or_ge i k with hlt | hge
      · exact habove i hi hlt
      · obtain rfl : i = k := by omega
        exact hc
    · rw [if_neg hc]
      refine ⟨by omega, fun i hi hik => by omega, fun i hi => ?_⟩
      obtain rfl : i = k := by omega
      exact hc

/-- The lines counted by `runBelow` are comment lines, and the one below them is not. -/
theorem runBelow_spec (start : Text) (lines : List Text) (k : Nat) :
    (∀ i, k < i → i ≤ k + runBelow start lines k → IsCommentAt start lines i) ∧
      ¬ IsCommentAt start lines (k + runBelow start lines k + 1) := by
  obtain ⟨hin, hout⟩ := takeWhile_length_spec (isCommentLine start) (lines.drop (k + 1))
  refine ⟨fun i hki hi => ?_, fun hc => hout ?_⟩
  · have := HoldsAt.drop.mp (hin (i - (k + 1)) (by unfold runBelow at hi; omega))
    rwa [show k + 1 + (i - (k + 1)) = i by omega] at this
  · refine HoldsAt.drop.mpr ?_
    rwa [Nat.add_right_comm] at hc

/-- The block around a line reaches from the first to the last line around it. -/
theorem surrounds_around (start : Text) (h : k < lines.length) :
    Surrounds start lines k (around start lines k).firstLine (around start lines k).lastLine := by
  obtain ⟨hle, habove, hbefore⟩ := runAbove_spec start (Nat.le_of_lt h)
  obtain ⟨hbelow, hafter⟩ := runBelow_spec start lines k
  have hlast : k + runBelow start lines k < lines.length := by
    rcases Nat.eq_zero_or_pos (runBelow start lines k) with hz | hp
    · omega
    · exact (hbelow (k + runBelow start lines k) (by omega) (Nat.le_refl _)).lt
  exact ⟨Nat.sub_le .., Nat.le_add_right .., hlast, habove, hbelow, hbefore, hafter⟩

/-- The lines from `first` to `last`, uncommented. -/
def span (start : Text) (lines : List Text) (first last : Nat) : CommentBlock :=
  ⟨((lines.drop first).take (last + 1 - first)).map (uncomment start), first, last⟩

/-- **The block around a line** is the span of the lines around it. -/
theorem around_eq (h : Surrounds start lines k first last) :
    around start lines k = span start lines first last := by
  have h' := surrounds_around start (Nat.lt_of_le_of_lt h.le_last h.last_lt)
  have hfirst := h'.first_eq h h'.first_le (Nat.le_refl k)
  have hlast := h'.last_eq h (Nat.le_refl k) h'.le_last
  rw [hfirst, hlast]
  rfl

theorem mem_span {line : Text} (h : line ∈ (span start lines first last).lines) :
    ∃ i l, first ≤ i ∧ lines[i]? = some l ∧ line = uncomment start l := by
  obtain ⟨l, hl, rfl⟩ := List.mem_map.mp h
  obtain ⟨i, hi, -, hl⟩ := exists_of_mem_take_drop hl
  exact ⟨i, l, hi, hl, rfl⟩

end CommentBlock

end ApiAnnotations

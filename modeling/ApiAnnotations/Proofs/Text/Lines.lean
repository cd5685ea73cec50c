import ApiAnnotations.Proofs.Text.Words
import ApiAnnotations.Text.Lines

/-! # Pieces and lines

* `splitOn_joinWith` : cutting at a separator undoes joining with it.
* `piece_induction` : induction on the pieces of a list.
* `cutLines_append_cons` : what ends a line ends it, over any type.
* `lines_unlines` : lines that are each followed by a line feed are read back. -/

namespace ApiAnnotations.Text

section

variable {α : Type} [DecidableEq α]

theorem splitOn_of_not_mem {sep : α} {s : List α} (h : sep ∉ s) : splitOn sep s = [s] :=
  splitWhere_of_forall fun a ha => by
    rw [decide_eq_false_iff_not]
    exact fun heq => h (heq ▸ ha)

theorem splitOn_append_cons (sep : α) (a b : List α) :
    splitOn sep (a ++ sep :: b) = splitOn sep a ++ splitOn sep b := by
  unfold splitOn
  exact splitWhere_append_cons (by simp) a b

/-- A list is a last piece, or a piece with a separator and a list behind it. -/
theorem piece_induction (sep : α) {motive : List α → Prop} (hlast : ∀ s, sep ∉ s → motive s)
    (hpiece : ∀ p rest, sep ∉ p → motive rest → motive (p ++ sep :: rest)) (s : List α) :
    motive s := by
  induction hlength : s.length using Nat.strongRecOn generalizing s with
  | ind n ih =>
    by_cases hmem : sep ∈ s
    · obtain ⟨p, rest, rfl, hp⟩ := List.eq_append_cons_of_mem hmem
      refine hpiece p rest hp (ih rest.length ?_ rest rfl)
      rw [← hlength, List.length_append, List.length_cons]
      omega
    · exact hlast s hmem

theorem dropFinal_of_not_mem {cr : α} {s : List α} (h : cr ∉ s) : dropFinal cr s = s := by
  rw [dropFinal, if_neg fun hlast => h (List.mem_of_getLast? hlast)]

theorem dropFinal_append (cr : α) (s : List α) : dropFinal cr (s ++ [cr]) = s := by
  rw [dropFinal, if_pos List.getLast?_concat, List.dropLast_concat]

theorem cutLines_of_not_mem {lf : α} (cr : α) {s : List α} (h : lf ∉ s) :
    cutLines lf cr s = if s.isEmpty then [] else [s] := by
  rw [cutLines, splitOn_of_not_mem h]
  rfl

/-- What ends a line ends it together with what is dropped before it. -/
theorem cutLines_append_cons {lf : α} (cr : α) {s : List α} (h : lf ∉ s) (rest : List α) :
    cutLines lf cr (s ++ lf :: rest) = dropFinal cr s :: cutLines lf cr rest := by
  rw [cutLines, splitOn_append_cons, splitOn_of_not_mem h, List.singleton_append, cutLines]
  cases hpieces : splitOn lf rest with
  | nil => exact absurd hpieces (splitWhere_ne_nil _ _)
  | cons p ps => rfl

end

/-- **Cutting undoes joining**, if no piece contains the separator. -/
theorem splitOn_joinWith {sep : Char} {ps : List Text} (hne : ps ≠ []) (h : ∀ p ∈ ps, sep ∉ p) :
    splitOn sep (joinWith [sep] ps) = ps := by
  induction ps with
  | nil => exact absurd rfl hne
  | cons p ps ih =>
    have hp := splitOn_of_not_mem (h p (List.mem_cons_self ..))
    cases ps with
    | nil => exact hp
    | cons q ps =>
      have ih := ih (List.cons_ne_nil _ _) fun r hr => h r (List.mem_cons_of_mem _ hr)
      rw [joinWith, List.append_assoc, List.singleton_append, splitOn_append_cons, hp, ih,
        List.singleton_append]

/-- A line feed ends a line, together with a carriage return before it. -/
theorem lines_append_lf {s : Text} (h : '\n' ∉ s) (rest : Text) :
    lines (s ++ '\n' :: rest) = dropFinal '\r' s :: lines rest :=
  cutLines_append_cons '\r' h rest

/-- Lines one after the other, each followed by a line feed. -/
def unlines (ls : List Text) : Text := ls.flatMap (· ++ ['\n'])

/-- No character ends a line or belongs to the end of one. -/
def IsLine (s : Text) : Prop := '\n' ∉ s ∧ '\r' ∉ s

instance (s : Text) : Decidable (IsLine s) := inferInstanceAs (Decidable (_ ∧ _))

theorem IsText.isLine {s : Text} (h : IsText s) : IsLine s :=
  ⟨fun hc => absurd (h.eq_space hc (by decide)) (by decide),
    fun hc => absurd (h.eq_space hc (by decide)) (by decide)⟩

theorem IsLine.append {s t : Text} (hs : IsLine s) (ht : IsLine t) : IsLine (s ++ t) := by
  unfold IsLine
  simp only [List.mem_append, not_or]
  exact ⟨⟨hs.1, ht.1⟩, ⟨hs.2, ht.2⟩⟩

theorem isLine_joinWith {sep : Text} {ps : List Text} (hsep : IsLine sep)
    (hps : ∀ p ∈ ps, IsLine p) : IsLine (joinWith sep ps) := by
  constructor
  · intro hc
    rcases mem_joinWith hc with hc | ⟨p, hp, hc⟩
    · exact hsep.1 hc
    · exact (hps p hp).1 hc
  · intro hc
    rcases mem_joinWith hc with hc | ⟨p, hp, hc⟩
    · exact hsep.2 hc
    · exact (hps p hp).2 hc

theorem lines_unlines {ls : List Text} (h : ∀ l ∈ ls, IsLine l) : lines (unlines ls) = ls := by
  induction ls with
  | nil => rfl
  | cons l ls ih =>
    obtain ⟨hlf, hcr⟩ := h l (List.mem_cons_self ..)
    have htext : unlines (l :: ls) = l ++ '\n' :: unlines ls := by
      rw [unlines, List.flatMap_cons, List.append_assoc]
      rfl
    rw [htext, lines_append_lf hlf, dropFinal_of_not_mem hcr,
      ih fun k hk => h k (List.mem_cons_of_mem _ hk)]

end ApiAnnotations.Text

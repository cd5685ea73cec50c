/-! # Text

Text is a list of characters, so that every operation on it is a recursion on a list.

* `splitWhere p s` cuts a list at the elements satisfying `p`; `splitWhere_ne_nil` says that there
  is always a piece, `splitWhere_append_cons` that an element cut at separates the pieces.
* `joinWith sep ps` is the concatenation of the pieces with `sep` between them; `joinWith_splitOn`
  says that joining undoes cutting at one character.
* `stripStart? p s` removes the beginning `p`; `stripStart?_eq_some_iff` says when it can.
* `contains needle s` asks for `needle` anywhere in `s`; `contains_iff` says so with `++`. -/

namespace ApiAnnotations

abbrev Text := List Char

instance : Coe String Text := ⟨String.toList⟩

namespace Text

/-! ## Cutting and joining -/

/-- Puts an element in front of the first piece. -/
def extendHead {α : Type} (a : α) : List (List α) → List (List α)
  | [] => [[a]]
  | p :: ps => (a :: p) :: ps

/-- Cuts a list at every element satisfying `p`; the elements cut at are dropped. -/
def splitWhere {α : Type} (p : α → Bool) (s : List α) : List (List α) :=
  s.foldr (fun a pieces => if p a then [] :: pieces else extendHead a pieces) [[]]

/-- Cuts a list at every `sep`. -/
def splitOn {α : Type} [DecidableEq α] (sep : α) (s : List α) : List (List α) :=
  splitWhere (fun a => decide (a = sep)) s

/-- The pieces one after the other, with `sep` between neighbours. -/
def joinWith (sep : Text) : List Text → Text
  | [] => []
  | [p] => p
  | p :: q :: ps => p ++ sep ++ joinWith sep (q :: ps)

theorem splitWhere_cons {α : Type} (p : α → Bool) (a : α) (s : List α) :
    splitWhere p (a :: s) =
      if p a then [] :: splitWhere p s else extendHead a (splitWhere p s) := rfl

theorem splitWhere_ne_nil {α : Type} (p : α → Bool) (s : List α) : splitWhere p s ≠ [] := by
  cases s with
  | nil => exact List.cons_ne_nil [] []
  | cons a s =>
    rw [splitWhere_cons]
    split
    · simp
    · cases splitWhere p s <;> simp [extendHead]

theorem extendHead_append {α : Type} (a : α) {ps : List (List α)} (qs : List (List α))
    (h : ps ≠ []) : extendHead a (ps ++ qs) = extendHead a ps ++ qs := by
  cases ps with
  | nil => exact absurd rfl h
  | cons p ps => rfl

theorem splitWhere_append_cons {α : Type} {p : α → Bool} {c : α} (hc : p c = true)
    (a b : List α) : splitWhere p (a ++ c :: b) = splitWhere p a ++ splitWhere p b := by
  induction a with
  | nil => rw [List.nil_append, splitWhere_cons, if_pos hc]; rfl
  | cons x a ih =>
    rw [List.cons_append, splitWhere_cons, splitWhere_cons, ih]
    split
    · rfl
    · exact extendHead_append x _ (splitWhere_ne_nil p a)

theorem splitWhere_of_forall {α : Type} {p : α → Bool} {s : List α} (h : ∀ a ∈ s, p a = false) :
    splitWhere p s = [s] := by
  induction s with
  | nil => rfl
  | cons a s ih =>
    rw [splitWhere_cons, ih fun b hb => h b (List.mem_cons_of_mem _ hb),
      if_neg (by simp [h a (List.mem_cons_self ..)])]
    rfl

theorem joinWith_extendHead (sep : Text) (c : Char) (ps : List Text) (h : ps ≠ []) :
    joinWith sep (extendHead c ps) = c :: joinWith sep ps := by
  match ps, h with
  | [p], _ => rfl
  | p :: q :: ps, _ => simp [extendHead, joinWith]

theorem joinWith_nil_cons (sep : Text) (ps : List Text) (h : ps ≠ []) :
    joinWith sep ([] :: ps) = sep ++ joinWith sep ps := by
  match ps, h with
  | p :: ps, _ => simp [joinWith]

theorem joinWith_splitOn (sep : Char) (s : Text) : joinWith [sep] (splitOn sep s) = s := by
  induction s with
  | nil => rfl
  | cons c s ih =>
    have hne := splitWhere_ne_nil (fun a => decide (a = sep)) s
    unfold splitOn at ih ⊢
    rw [splitWhere_cons]
    split
    · next h => rw [joinWith_nil_cons _ _ hne, ih]; simp_all
    · rw [joinWith_extendHead _ _ _ hne, ih]

/-! ## Beginnings and parts -/

/-- Whether `s` begins with `p`. -/
def startsWith (p s : Text) : Bool := p.isPrefixOf s

/-- `s` without the beginning `p`, if it has it. -/
def stripStart? : Text → Text → Option Text
  | [], s => some s
  | _ :: _, [] => none
  | c :: p, d :: s => if c = d then stripStart? p s else none

/-- Whether `needle` occurs somewhere in the text. -/
def contains (needle : Text) : Text → Bool
  | [] => needle.isEmpty
  | c :: s => startsWith needle (c :: s) || contains needle s

theorem stripStart?_eq_some_iff {p s r : Text} : stripStart? p s = some r ↔ s = p ++ r := by
  induction p generalizing s with
  | nil => simp [stripStart?, eq_comm]
  | cons c p ih =>
    cases s with
    | nil => simp [stripStart?]
    | cons d s =>
      by_cases h : c = d
      · simp [stripStart?, h, ih]
      · simp [stripStart?, h, Ne.symm h]

theorem startsWith_iff {p s : Text} : startsWith p s = true ↔ ∃ r, s = p ++ r := by
  rw [startsWith, List.isPrefixOf_iff_prefix]
  exact ⟨fun ⟨r, h⟩ => ⟨r, h.symm⟩, fun ⟨r, h⟩ => ⟨r, h.symm⟩⟩

theorem contains_iff {needle s : Text} :
    contains needle s = true ↔ ∃ a b, s = a ++ needle ++ b := by
  induction s with
  | nil => simp [contains]
  | cons c s ih =>
    rw [contains, Bool.or_eq_true, startsWith_iff, ih]
    constructor
    · rintro (⟨r, h⟩ | ⟨a, b, h⟩)
      · exact ⟨[], r, by simpa using h⟩
      · exact ⟨c :: a, b, by simp [h]⟩
    · rintro ⟨a, b, h⟩
      cases a with
      | nil => exact .inl ⟨b, by simpa using h⟩
      | cons d a => exact .inr ⟨a, b, by simp_all⟩

end Text

end ApiAnnotations

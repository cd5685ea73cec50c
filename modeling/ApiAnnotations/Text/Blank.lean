import ApiAnnotations.Text

/-! # Blank characters and words

A character is blank if it has the Unicode property `White_Space`. A word is a nonempty text without
blanks.

* `words s` are the maximal runs of non-blank characters, `unwords` joins words with single spaces.
* `mem_words` says that every word of a text is a word; `words_unwords` says that reading joined
  words gives them back.
* `trim` drops blanks at both ends. -/

namespace ApiAnnotations.Text

/-- The Unicode property `White_Space`. -/
def isBlank (c : Char) : Bool :=
  let n := c.toNat
  (9 ≤ n && n ≤ 13) || n == 0x20 || n == 0x85 || n == 0xA0 || n == 0x1680 ||
    (0x2000 ≤ n && n ≤ 0x200A) || n == 0x2028 || n == 0x2029 || n == 0x202F || n == 0x205F ||
    n == 0x3000

/-- A nonempty text without blanks. -/
def IsWord (w : Text) : Prop := w ≠ [] ∧ ∀ c ∈ w, isBlank c = false

instance (w : Text) : Decidable (IsWord w) :=
  decidable_of_iff (w ≠ [] ∧ w.all (fun c => !isBlank c) = true) (by simp [IsWord])

def words (s : Text) : List Text := (splitWhere isBlank s).filter (fun w => !w.isEmpty)

def unwords (ws : List Text) : Text := joinWith [' '] ws

/-- A text without the blanks at its beginning. -/
def trimStart (s : Text) : Text := s.dropWhile isBlank

/-- A text without the blanks at its end. -/
def trimEnd (s : Text) : Text := (s.reverse.dropWhile isBlank).reverse

/-- A text without the blanks at its ends. -/
def trim (s : Text) : Text := trimEnd (trimStart s)

/-! ## Words -/

theorem not_mem_splitWhere {α : Type} {p : α → Bool} {s w : List α} (h : w ∈ splitWhere p s) :
    ∀ a ∈ w, p a = false := by
  induction s generalizing w with
  | nil =>
    obtain rfl := List.mem_singleton.mp h
    exact nofun
  | cons a s ih =>
    rw [splitWhere_cons] at h
    split at h
    · rcases List.mem_cons.1 h with rfl | h
      · simp
      · exact ih h
    · next ha =>
      generalize hps : splitWhere p s = ps at h
      match ps, hps with
      | [], hps => exact absurd hps (splitWhere_ne_nil p s)
      | q :: ps, hps =>
        rw [hps] at ih
        rcases List.mem_cons.1 h with rfl | h
        · intro b hb
          rcases List.mem_cons.1 hb with rfl | hb
          · simpa using ha
          · exact ih (by simp) b hb
        · exact ih (by simp [h])

theorem mem_words {s w : Text} (h : w ∈ words s) : IsWord w := by
  obtain ⟨hw, hne⟩ := List.mem_filter.1 h
  exact ⟨by simpa using hne, not_mem_splitWhere hw⟩

theorem words_unwords {ws : List Text} (h : ∀ w ∈ ws, IsWord w) : words (unwords ws) = ws := by
  unfold words unwords
  induction ws with
  | nil => rfl
  | cons w ws ih =>
    have hw := h w (by simp)
    have ih := ih (fun v hv => h v (by simp [hv]))
    have hne : (!w.isEmpty) = true := by simpa using hw.1
    cases ws with
    | nil => simp [joinWith, splitWhere_of_forall hw.2, hw.1]
    | cons v ws =>
      have hblank : isBlank ' ' = true := by decide
      simp only [joinWith, List.append_assoc, List.singleton_append, splitWhere_append_cons hblank,
        splitWhere_of_forall hw.2, List.filter_cons, hne, if_true, ih]

end ApiAnnotations.Text

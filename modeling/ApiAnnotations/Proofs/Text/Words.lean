import ApiAnnotations.Text.Blank

/-! # Words and texts in normal form

* `words_append_blank` : a blank separates words; the words of joined pieces are those of the pieces
  (`words_joinWith`).
* `exists_first_word` : a text that begins with a non-blank begins with its first word.
* `trim_trim`, `words_trim` : trimming a second time changes nothing, and it leaves the words.
* `IsText s` : the text is a list of words joined with single spaces. Such a text is what its words
  give back (`isText_iff`), and has no blanks at its ends (`IsText.trim_eq`). -/

namespace ApiAnnotations.Text

/-! ## Words of composed texts -/

@[simp] theorem words_nil : words [] = [] := rfl

/-- **A blank separates words.** -/
theorem words_append_blank {c : Char} (hc : isBlank c = true) (a b : Text) :
    words (a ++ c :: b) = words a ++ words b := by
  rw [words, splitWhere_append_cons hc, List.filter_append]
  rfl

theorem words_word {w : Text} (h : IsWord w) : words w = [w] := by
  rw [words, splitWhere_of_forall h.2]
  simp [h.1]

theorem words_unwords_words (s : Text) : words (unwords (words s)) = words s :=
  words_unwords fun _ hw => mem_words hw

theorem words_joinWith (ps : List Text) : words (joinWith [' '] ps) = ps.flatMap words := by
  induction ps with
  | nil => rfl
  | cons p ps ih =>
    cases ps with
    | nil => simp [joinWith]
    | cons q ps =>
      rw [joinWith, List.append_assoc, List.singleton_append,
        words_append_blank (show isBlank ' ' = true by decide), ih, List.flatMap_cons (x := p)]

theorem words_pair {v w : Text} (hv : IsWord v) (hw : IsWord w) :
    words (v ++ ' ' :: w) = [v, w] := by
  rw [words_append_blank (by decide), words_word hv, words_word hw]
  rfl

theorem head?_words_of_startsWith {w s : Text} (hw : IsWord w)
    (h : startsWith (w ++ [' ']) s = true) : (words s).head? = some w := by
  obtain ⟨r, rfl⟩ := startsWith_iff.mp h
  rw [List.append_assoc, List.singleton_append, words_append_blank (by decide), words_word hw]
  rfl

/-- A text that begins with a non-blank begins with its first word. If there are other words, a
blank follows it. -/
theorem exists_first_word {c : Char} (hc : isBlank c = false) (s : Text) :
    ∃ w ws rest, words (c :: s) = (c :: w) :: ws ∧ s = w ++ rest ∧
      (ws ≠ [] → ∃ d t, rest = d :: t ∧ isBlank d = true) := by
  have hsplit := List.takeWhile_append_dropWhile (p := fun d => !isBlank d) (l := s)
  have hword : IsWord (c :: s.takeWhile fun d => !isBlank d) := by
    refine ⟨List.cons_ne_nil _ _, fun d hd => ?_⟩
    rcases List.mem_cons.mp hd with rfl | hd
    · exact hc
    · simpa using List.all_eq_true.mp List.all_takeWhile d hd
  refine ⟨s.takeWhile fun d => !isBlank d, ?_⟩
  cases hrest : s.dropWhile fun d => !isBlank d with
  | nil =>
    rw [hrest, List.append_nil] at hsplit
    refine ⟨[], [], ?_, by rw [List.append_nil, hsplit], fun h => absurd rfl h⟩
    rw [hsplit] at hword ⊢
    exact words_word hword
  | cons d rest =>
    have hd : isBlank d = true := by
      have := List.head_dropWhile_not (fun d => !isBlank d) (l := s) (by rw [hrest]; simp)
      simpa [hrest] using this
    refine ⟨words rest, d :: rest, ?_, by rw [← hrest, hsplit], fun _ => ⟨d, rest, rfl, hd⟩⟩
    rw [hrest] at hsplit
    have hwords := words_append_blank hd (c :: s.takeWhile fun d => !isBlank d) rest
    rwa [List.cons_append, hsplit, words_word hword] at hwords

/-! ## Texts in normal form -/

/-- A list of words joined with single spaces. -/
def IsText (s : Text) : Prop := ∃ ws : List Text, (∀ w ∈ ws, IsWord w) ∧ s = unwords ws

theorem isText_iff {s : Text} : IsText s ↔ unwords (words s) = s := by
  constructor
  · rintro ⟨ws, hws, rfl⟩
    rw [words_unwords hws]
  · exact fun h => ⟨words s, fun w hw => mem_words hw, h.symm⟩

instance (s : Text) : Decidable (IsText s) := decidable_of_iff _ isText_iff.symm

theorem IsText.unwords_words {s : Text} (h : IsText s) : unwords (words s) = s := isText_iff.mp h

theorem IsWord.isText {w : Text} (h : IsWord w) : IsText w :=
  ⟨[w], by simpa using h, rfl⟩

theorem isText_pair {v w : Text} (hv : IsWord v) (hw : IsWord w) : IsText (v ++ ' ' :: w) := by
  refine ⟨[v, w], by simpa using ⟨hv, hw⟩, ?_⟩
  simp [unwords, joinWith]

theorem unwords_cons {w : Text} {ws : List Text} (h : ws ≠ []) :
    unwords (w :: ws) = w ++ ' ' :: unwords ws := by
  cases ws with
  | nil => exact absurd rfl h
  | cons v ws => simp [unwords, joinWith]

theorem unwords_ne_nil {ws : List Text} (h : ∀ w ∈ ws, IsWord w) (hne : ws ≠ []) :
    unwords ws ≠ [] := by
  obtain ⟨w, ws, rfl⟩ := List.exists_cons_of_ne_nil hne
  have hw := (h w (List.mem_cons_self ..)).1
  cases ws with
  | nil => exact hw
  | cons v ws =>
    rw [unwords_cons (List.cons_ne_nil _ _)]
    simp

/-- Neither end of joined words is a blank. -/
theorem not_blank_of_unwords {ws : List Text} (h : ∀ w ∈ ws, IsWord w) :
    (∀ c ∈ (unwords ws).head?, isBlank c = false) ∧
      ∀ c ∈ (unwords ws).getLast?, isBlank c = false := by
  induction ws with
  | nil => simp [unwords, joinWith]
  | cons w ws ih =>
    obtain ⟨hne, hw⟩ := h w (List.mem_cons_self ..)
    obtain ⟨-, hlast⟩ := ih fun v hv => h v (List.mem_cons_of_mem _ hv)
    cases ws with
    | nil => exact ⟨fun c hc => hw c (List.mem_of_mem_head? hc),
        fun c hc => hw c (List.mem_of_mem_getLast? hc)⟩
    | cons v ws =>
      obtain ⟨c, w, rfl⟩ := List.exists_cons_of_ne_nil hne
      have hrest : unwords (v :: ws) ≠ [] :=
        unwords_ne_nil (fun u hu => h u (List.mem_cons_of_mem _ hu)) (List.cons_ne_nil _ _)
      rw [unwords_cons (by simp)]
      refine ⟨fun d hd => ?_, fun d hd => hlast d ?_⟩
      · obtain rfl : c = d := by simpa using hd
        exact hw c (List.mem_cons_self ..)
      · have hspace : (' ' :: unwords (v :: ws)).getLast? = (unwords (v :: ws)).getLast? :=
          List.getLast?_cons_of_ne_nil hrest
        rwa [List.getLast?_append, hspace, List.getLast?_eq_some_getLast hrest,
          Option.some_or, ← List.getLast?_eq_some_getLast hrest] at hd

/-- Non-blanks before a text belong to its first word. -/
theorem IsText.append_left {a s : Text} (ha : ∀ c ∈ a, isBlank c = false) (h : IsText s)
    (hne : s ≠ []) : IsText (a ++ s) := by
  obtain ⟨ws, hws, rfl⟩ := h
  cases ws with
  | nil => exact absurd rfl hne
  | cons w ws =>
    obtain ⟨hw, hwb⟩ := hws w (List.mem_cons_self ..)
    have hjoined : IsWord (a ++ w) := by
      refine ⟨by simp [hw], fun c hc => ?_⟩
      rcases List.mem_append.mp hc with hc | hc
      · exact ha c hc
      · exact hwb c hc
    refine ⟨(a ++ w) :: ws, fun v hv => ?_, ?_⟩
    · rcases List.mem_cons.mp hv with rfl | hv
      · exact hjoined
      · exact hws v (List.mem_cons_of_mem _ hv)
    · cases ws with
      | nil => rfl
      | cons v ws =>
        rw [unwords_cons (List.cons_ne_nil _ _), unwords_cons (List.cons_ne_nil _ _),
          List.append_assoc]

/-- Two texts with a non-blank between them are a text. -/
theorem IsText.append_cons {c : Char} (hc : isBlank c = false) {a b : Text} (ha : IsText a)
    (hb : IsText b) : IsText (a ++ c :: b) := by
  have hcb : IsText (c :: b) := by
    by_cases hne : b = []
    · exact IsWord.isText ⟨List.cons_ne_nil _ _, by simpa [hne] using hc⟩
    · exact IsText.append_left (a := [c]) (by simpa using hc) hb hne
  obtain ⟨ws, hws, rfl⟩ := ha
  induction ws with
  | nil => exact hcb
  | cons w ws ih =>
    have hw := hws w (List.mem_cons_self ..)
    by_cases hne : ws = []
    · subst hne
      exact IsText.append_left hw.2 hcb (List.cons_ne_nil _ _)
    · obtain ⟨vs, hvs, heq⟩ := ih fun v hv => hws v (List.mem_cons_of_mem _ hv)
      have hvne : vs ≠ [] := by
        rintro rfl
        exact absurd heq (by simp [unwords, joinWith])
      refine ⟨w :: vs, fun v hv => ?_, ?_⟩
      · rcases List.mem_cons.mp hv with rfl | hv
        · exact hw
        · exact hvs v hv
      · rw [unwords_cons hne, unwords_cons hvne, List.append_assoc, List.cons_append, heq]

theorem dropWhile_of_head {p : Char → Bool} {s : Text} (h : ∀ c ∈ s.head?, p c = false) :
    s.dropWhile p = s := by
  cases s with
  | nil => rfl
  | cons c s => rw [List.dropWhile_cons_of_neg (by simp [h c rfl])]

theorem trimStart_of_head {s : Text} (h : ∀ c ∈ s.head?, isBlank c = false) : trimStart s = s :=
  dropWhile_of_head h

theorem trimEnd_of_last {s : Text} (h : ∀ c ∈ s.getLast?, isBlank c = false) : trimEnd s = s := by
  rw [trimEnd, dropWhile_of_head (by rwa [List.head?_reverse]), List.reverse_reverse]

/-- A text without blanks at its ends is trimmed. -/
theorem trim_of_ends {s : Text} (hhead : ∀ c ∈ s.head?, isBlank c = false)
    (hlast : ∀ c ∈ s.getLast?, isBlank c = false) : trim s = s := by
  rw [trim, trimStart_of_head hhead, trimEnd_of_last hlast]

theorem IsText.trimStart_eq {s : Text} (h : IsText s) : trimStart s = s := by
  obtain ⟨ws, hws, rfl⟩ := h
  exact trimStart_of_head (not_blank_of_unwords hws).1

theorem IsText.trim_eq {s : Text} (h : IsText s) : trim s = s := by
  obtain ⟨ws, hws, rfl⟩ := h
  exact trim_of_ends (not_blank_of_unwords hws).1 (not_blank_of_unwords hws).2

theorem head?_dropWhile {p : Char → Bool} {s : Text} {c : Char}
    (h : (s.dropWhile p).head? = some c) : p c = false := by
  have hnot := List.head?_dropWhile_not p s
  rw [h] at hnot
  exact hnot

theorem trimEnd_isPrefix (s : Text) : trimEnd s <+: s := by
  have h := List.reverse_prefix.mpr (List.dropWhile_suffix (l := s.reverse) isBlank)
  rwa [List.reverse_reverse] at h

theorem mem_of_mem_trim {s : Text} {c : Char} (h : c ∈ trim s) : c ∈ s :=
  (List.dropWhile_suffix isBlank).mem ((trimEnd_isPrefix _).mem h)

/-- Neither end of a trimmed text is a blank. -/
theorem not_blank_of_trim (s : Text) :
    (∀ c ∈ (trim s).head?, isBlank c = false) ∧ ∀ c ∈ (trim s).getLast?, isBlank c = false := by
  constructor
  · intro c hc
    obtain ⟨rest, hrest⟩ := trimEnd_isPrefix (trimStart s)
    refine head?_dropWhile (s := s) ?_
    change (trimStart s).head? = some c
    rw [← hrest, List.head?_append, show (trimEnd (trimStart s)).head? = some c from hc,
      Option.some_or]
  · intro c hc
    refine head?_dropWhile (s := (trimStart s).reverse) ?_
    rw [trim, trimEnd, List.getLast?_reverse] at hc
    exact hc

theorem trim_trim (s : Text) : trim (trim s) = trim s :=
  trim_of_ends (not_blank_of_trim s).1 (not_blank_of_trim s).2

theorem trimStart_cons_blank {c : Char} (hc : isBlank c = true) (s : Text) :
    trimStart (c :: s) = trimStart s :=
  List.dropWhile_cons_of_pos hc

theorem trim_cons_blank {c : Char} (hc : isBlank c = true) (s : Text) : trim (c :: s) = trim s := by
  rw [trim, trimStart_cons_blank hc]
  rfl

/-! ## Words of trimmed texts -/

theorem words_of_blank {s : Text} (h : ∀ c ∈ s, isBlank c = true) : words s = [] := by
  induction s with
  | nil => rfl
  | cons c s ih =>
    have hs := ih fun d hd => h d (List.mem_cons_of_mem _ hd)
    have hcons := words_append_blank (h c List.mem_cons_self) [] s
    rwa [List.nil_append, words_nil, List.nil_append, hs] at hcons

/-- Blanks at the end of a text are not part of a word. -/
theorem words_append_blanks (s : Text) {t : Text} (h : ∀ c ∈ t, isBlank c = true) :
    words (s ++ t) = words s := by
  cases t with
  | nil => rw [List.append_nil]
  | cons c t =>
    rw [words_append_blank (h c List.mem_cons_self),
      words_of_blank fun d hd => h d (List.mem_cons_of_mem _ hd), List.append_nil]

theorem words_trimStart (s : Text) : words (trimStart s) = words s := by
  induction s with
  | nil => rfl
  | cons c s ih =>
    cases hc : isBlank c with
    | true =>
      have hcons := words_append_blank hc [] s
      rw [List.nil_append, words_nil, List.nil_append] at hcons
      rw [trimStart_cons_blank hc, ih, hcons]
    | false => rw [trimStart_of_head (s := c :: s) (by simpa using hc)]

theorem words_trimEnd (s : Text) : words (trimEnd s) = words s := by
  have hsplit : trimEnd s ++ (s.reverse.takeWhile isBlank).reverse = s := by
    rw [trimEnd, ← List.reverse_append, List.takeWhile_append_dropWhile, List.reverse_reverse]
  have hblank : ∀ c ∈ (s.reverse.takeWhile isBlank).reverse, isBlank c = true := by
    intro c hc
    exact List.all_eq_true.mp List.all_takeWhile c (List.mem_reverse.mp hc)
  have hwords := words_append_blanks (trimEnd s) hblank
  rw [hsplit] at hwords
  exact hwords.symm

/-- **Trimming leaves the words of a text.** -/
theorem words_trim (s : Text) : words (trim s) = words s := by
  rw [trim, words_trimEnd, words_trimStart]

/-! ## Characters of composed texts -/

theorem mem_joinWith {sep : Text} {ps : List Text} {c : Char} (h : c ∈ joinWith sep ps) :
    c ∈ sep ∨ ∃ p ∈ ps, c ∈ p := by
  induction ps with
  | nil => exact absurd h List.not_mem_nil
  | cons p ps ih =>
    cases ps with
    | nil => exact .inr ⟨p, List.mem_cons_self .., h⟩
    | cons q ps =>
      rw [joinWith, List.mem_append, List.mem_append] at h
      rcases h with (h | h) | h
      · exact .inr ⟨p, List.mem_cons_self .., h⟩
      · exact .inl h
      · obtain h | ⟨r, hr, h⟩ := ih h
        · exact .inl h
        · exact .inr ⟨r, List.mem_cons_of_mem _ hr, h⟩

theorem mem_joinWith_of_mem {sep : Text} {ps : List Text} {p : Text} {c : Char} (hp : p ∈ ps)
    (hc : c ∈ p) : c ∈ joinWith sep ps := by
  induction ps with
  | nil => exact absurd hp List.not_mem_nil
  | cons q ps ih =>
    cases ps with
    | nil =>
      rw [List.mem_singleton.mp hp] at hc
      exact hc
    | cons r ps =>
      rw [joinWith, List.mem_append, List.mem_append]
      rcases List.mem_cons.mp hp with rfl | hp
      · exact .inl (.inl hc)
      · exact .inr (ih hp)

/-- All blanks of a text are spaces. -/
theorem IsText.eq_space {s : Text} (h : IsText s) {c : Char} (hc : c ∈ s)
    (hblank : isBlank c = true) : c = ' ' := by
  obtain ⟨ws, hws, rfl⟩ := h
  rcases mem_joinWith hc with hc | ⟨w, hw, hc⟩
  · simpa using hc
  · rw [(hws w hw).2 c hc] at hblank
    exact absurd hblank Bool.false_ne_true

end ApiAnnotations.Text

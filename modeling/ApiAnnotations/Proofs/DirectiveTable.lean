import ApiAnnotations.Model
import ApiAnnotations.Proofs.Text.Words
import ApiAnnotations.Route
import Mathlib.Data.List.Basic
import Mathlib.Tactic.SplitIfs

/-! # The table of a block

* `arguments_ofLines` : the arguments of a directive are those of the lines that name it, in order;
  `arguments_eq_filterMap` says so line by line.
* `arguments_insert` : a line that names no directive is not part of an argument.
* `above lines` : the lines above the first one written as a directive; `mem_preamble` : the preamble
  is made of them. `preamble_insert`, `preamble_append` : where it ends.
* `startsWith_of_ofLine?` : a line that names a directive begins with `@` and the canonical name;
  hence a block without that text has no such directive (`first?_eq_none_of_not_contains`).
* `Route.toOption_parse_of_first?` and `Model.toOption_parse_of_first?` : a table without the
  directive of a record makes no record.
* `Model.exists_line_of_parse` : a block that makes a model has a line with `@model` and a blank
  behind it, whichever blank. -/

namespace ApiAnnotations

namespace Directive

theorem eq_name_of_ofName? {name : Text} {d : Directive} (h : ofName? name = some d) :
    name = d.name ∨ (d = .tag ∧ name = "tags".toList) := by
  unfold ofName? at h
  split_ifs at h with hdescription hroute hmodel hresponse hparam htag
  · cases h; exact .inl hdescription
  · cases h; exact .inl hroute
  · cases h; exact .inl hmodel
  · cases h; exact .inl hresponse
  · cases h; exact .inl hparam
  · cases h; exact htag.imp id fun hname => ⟨rfl, hname⟩

/-- A directive line is `@`, a name of the directive and something after it, which begins with a
blank if there is an argument. -/
theorem exists_name_of_ofLine? {line argument : Text} {d : Directive}
    (h : ofLine? line = some (d, argument)) :
    ∃ name rest, ofName? name = some d ∧ line = '@' :: (name ++ rest) ∧
      (argument ≠ [] → ∃ c t, rest = c :: t ∧ Text.isBlank c = true) := by
  cases line with
  | nil => simp [ofLine?, isLine] at h
  | cons c s =>
    by_cases hc : c = '@'
    · subst hc
      obtain ⟨w, ws, rest, hwords, rfl, hblank⟩ :=
        Text.exists_first_word (show Text.isBlank '@' = false by decide) s
      simp only [ofLine?, isLine, List.head?_cons, decide_true, if_true, hwords, List.tail_cons,
        Option.map_eq_some_iff] at h
      obtain ⟨d', hd, heq⟩ := h
      obtain ⟨rfl, rfl⟩ := Prod.mk.inj heq
      refine ⟨w, rest, hd, rfl, ?_⟩
      intro hargument
      apply hblank
      rintro rfl
      exact hargument rfl
    · simp [ofLine?, isLine, hc] at h

/-- A line that names a directive begins with its canonical name; `tags` begins with `tag`. -/
theorem startsWith_of_ofLine? {line argument : Text} {d : Directive}
    (h : ofLine? line = some (d, argument)) : Text.startsWith ('@' :: d.name) line = true := by
  obtain ⟨name, rest, hname, rfl, -⟩ := exists_name_of_ofLine? h
  rcases eq_name_of_ofName? hname with rfl | ⟨rfl, rfl⟩
  · exact Text.startsWith_iff.mpr ⟨rest, rfl⟩
  · exact Text.startsWith_iff.mpr ⟨'s' :: rest, rfl⟩

theorem isLine_of_ofLine? {line : Text} {e : Directive × Text} (h : ofLine? line = some e) :
    isLine line = true := by
  unfold ofLine? at h
  split at h
  · assumption
  · cases h

theorem ofLine?_of_not_isLine {line : Text} (h : isLine line = false) : ofLine? line = none := by
  rw [ofLine?, if_neg (by simp [h])]

/-- The argument that a line gives a directive. -/
def argument? (d : Directive) (line : Text) : Option Text :=
  (ofLine? line).bind fun e => if e.1 = d then some e.2 else none

end Directive

namespace DirectiveTable

theorem get?_foldl_push (es : List (Directive × Text)) (m : OrderedMap Directive (List Text))
    (d : Directive) :
    ((es.foldl push m).get? d).getD [] =
      (m.get? d).getD [] ++ (es.filter fun e => decide (e.1 = d)).map Prod.snd := by
  induction es generalizing m with
  | nil => simp
  | cons e es ih =>
    rw [List.foldl_cons, ih, push, OrderedMap.get?_insert, List.filter_cons]
    by_cases h : e.1 = d
    · simp [h]
    · simp [h]

/-- **The arguments of a directive** are those of the lines that name it, in order. -/
theorem arguments_ofLines (lines : List Text) (d : Directive) :
    (ofLines lines).arguments d =
      ((lines.filterMap Directive.ofLine?).filter fun e => decide (e.1 = d)).map Prod.snd := by
  have h := get?_foldl_push (lines.filterMap Directive.ofLine?) ∅ d
  rwa [OrderedMap.get?_empty, Option.getD_none, List.nil_append] at h

theorem arguments_eq_filterMap (lines : List Text) (d : Directive) :
    (ofLines lines).arguments d = lines.filterMap d.argument? := by
  rw [arguments_ofLines, ← List.filterMap_eq_map, List.filterMap_filter, List.filterMap_filterMap]
  refine List.filterMap_congr fun l _ => ?_
  simp [Directive.argument?]

theorem arguments_append (ls ks : List Text) (d : Directive) :
    (ofLines (ls ++ ks)).arguments d = (ofLines ls).arguments d ++ (ofLines ks).arguments d := by
  simp [arguments_ofLines]

/-- A line that names no directive is not part of an argument. -/
theorem arguments_insert {l : Text} (hl : Directive.ofLine? l = none) (xs ys : List Text)
    (d : Directive) :
    (ofLines (xs ++ l :: ys)).arguments d = (ofLines (xs ++ ys)).arguments d := by
  simp [arguments_ofLines, hl]

/-- The lines above the first one written as a directive. -/
def above (lines : List Text) : List Text := lines.takeWhile fun l => !Directive.isLine l

theorem above_of_isLine {lines : List Text} (h : ∀ l ∈ lines, Directive.isLine l = true) :
    above lines = [] := by
  cases lines with
  | nil => rfl
  | cons l ls => rw [above, List.takeWhile_cons_of_neg (by simp [h l List.mem_cons_self])]

theorem preamble_ofLines (lines : List Text) :
    (ofLines lines).preamble = ((above lines).map Text.trim).filter fun l => !l.isEmpty := rfl

theorem mem_preamble {lines : List Text} {t : Text} :
    t ∈ (ofLines lines).preamble ↔ (∃ l ∈ above lines, Text.trim l = t) ∧ t ≠ [] := by
  rw [preamble_ofLines, List.mem_filter, List.mem_map, Bool.not_eq_true', List.isEmpty_eq_false_iff]

theorem length_preamble_le (lines : List Text) : (ofLines lines).preamble.length ≤ lines.length :=
  calc (ofLines lines).preamble.length
      ≤ ((above lines).map Text.trim).length := List.length_filter_le ..
    _ = (above lines).length := List.length_map _
    _ ≤ lines.length := (List.takeWhile_prefix _).length_le

/-- The preamble ends above the first line written as a directive. -/
theorem preamble_insert (xs : List Text) {l : Text} (hl : Directive.isLine l = true)
    (ys : List Text) : (ofLines (xs ++ l :: ys)).preamble = (ofLines xs).preamble := by
  have habove : above (xs ++ l :: ys) = above xs := by
    unfold above
    induction xs with
    | nil => simp [hl]
    | cons x xs ih => simp only [List.cons_append, List.takeWhile_cons, ih]
  rw [preamble_ofLines, habove, preamble_ofLines]

theorem preamble_append {xs : List Text} (h : ∃ x ∈ xs, Directive.isLine x = true)
    (ys : List Text) : (ofLines (xs ++ ys)).preamble = (ofLines xs).preamble := by
  obtain ⟨x, hx, hline⟩ := h
  obtain ⟨above, below, rfl⟩ := List.append_of_mem hx
  rw [List.append_assoc, List.cons_append, preamble_insert above hline,
    preamble_insert above hline]

theorem exists_line_of_first? {lines : List Text} {d : Directive} {argument : Text}
    (h : (ofLines lines).first? d = some argument) :
    ∃ line ∈ lines, Directive.ofLine? line = some (d, argument) := by
  rw [first?, arguments_ofLines] at h
  obtain ⟨⟨d', a⟩, he, rfl⟩ := List.mem_map.mp (List.mem_of_mem_head? h)
  rw [List.mem_filter, List.mem_filterMap, decide_eq_true_eq] at he
  obtain ⟨⟨line, hline, heq⟩, rfl⟩ := he
  exact ⟨line, hline, heq⟩

theorem first?_eq_none_of_forall {lines : List Text} {d : Directive}
    (h : ∀ line ∈ lines, ∀ argument, Directive.ofLine? line ≠ some (d, argument)) :
    (ofLines lines).first? d = none := by
  have hnone : ((lines.filterMap Directive.ofLine?).filter fun e => decide (e.1 = d)) = [] := by
    rw [List.filter_eq_nil_iff]
    rintro ⟨d', argument⟩ he
    obtain ⟨line, hline, heq⟩ := List.mem_filterMap.mp he
    intro hd
    obtain rfl : d' = d := by simpa using hd
    exact h line hline argument heq
  rw [first?, arguments_ofLines, hnone]
  rfl

/-- A block in which the name of a directive does not occur after `@` lacks the directive. -/
theorem first?_eq_none_of_not_contains {lines : List Text} {d : Directive}
    (h : ∀ line ∈ lines, Text.contains ('@' :: d.name) line = false) :
    (ofLines lines).first? d = none := by
  refine first?_eq_none_of_forall fun line hline argument heq => ?_
  obtain ⟨rest, hrest⟩ := Text.startsWith_iff.mp (Directive.startsWith_of_ofLine? heq)
  have hcontains : Text.contains ('@' :: d.name) line = true :=
    Text.contains_iff.mpr ⟨[], rest, by rw [hrest, List.nil_append]⟩
  rw [h line hline] at hcontains
  exact Bool.false_ne_true hcontains

end DirectiveTable

theorem Route.toOption_parse_of_first? {table : DirectiveTable} (h : table.first? .route = none)
    (place : Place) : (parse table place).toOption = none := by
  rw [parse, signature, h]
  rfl

theorem Model.toOption_parse_of_first? {table : DirectiveTable} (h : table.first? .model = none)
    (style : DeclarationStyle) (lines : List Text) (place : Place) :
    (parse style lines table place).toOption = none := by
  rw [parse, nameOf, h]
  rfl

/-- A block that makes a model has a line with `@model` and a blank. -/
theorem Model.exists_line_of_parse {style : DeclarationStyle} {lines block : List Text}
    {place : Place} (h : (parse style lines (.ofLines block) place).toOption.isSome) :
    ∃ line ∈ block, ∃ c rest, Text.isBlank c = true ∧ line = "@model".toList ++ c :: rest := by
  cases hfirst : (DirectiveTable.ofLines block).first? .model with
  | none =>
    rw [toOption_parse_of_first? hfirst] at h
    cases h
  | some argument =>
    obtain ⟨line, hline, hdirective⟩ := DirectiveTable.exists_line_of_first? hfirst
    have hargument : argument ≠ [] := by
      rintro rfl
      simp [parse, nameOf, hfirst, Except.toOption] at h
    obtain ⟨name, rest, hname, rfl, hblank⟩ := Directive.exists_name_of_ofLine? hdirective
    obtain ⟨c, rest, rfl, hc⟩ := hblank hargument
    rcases Directive.eq_name_of_ofName? hname with rfl | ⟨hd, -⟩
    · exact ⟨_, hline, c, rest, hc, rfl⟩
    · cases hd

end ApiAnnotations

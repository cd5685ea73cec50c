import ApiAnnotations.Proofs.Annotation
import ApiAnnotations.Proofs.OrderedMap

/-! # The lines of a table

A table of directives is written as its preamble and one line for each argument, directive by
directive. Reading these lines gives the table back: the order of lines of different directives,
unknown directives, the spelling `tags` and the blanks of a block do not count.

* `DirectiveTable.lines` : the lines of a table.
* `IsNormal` : the tables that are read back, by `ofLines_lines_iff_isNormal`.
* `grouped_foldl_push` : what is read is grouped by directive, and its arguments are texts.
* `foldl_push_spread` : the arguments of a grouped map, one after the other, give the map.
* `ofLines_lines_iff` : a block is read back from the lines of its table exactly if no text above
  its first directive looks like one when trimmed. -/

namespace ApiAnnotations

open Directive (isLine)
open Text (IsText)

namespace DirectiveTable

/-- The preamble, then a line for each argument, in the order of the table. -/
def lines (table : DirectiveTable) : List Text :=
  table.preamble ++ table.entries.entries.flatMap fun e => e.2.map e.1.line

/-- Every directive has an argument, and every argument is a text. -/
def Grouped (m : OrderedMap Directive (List Text)) : Prop :=
  ∀ e ∈ m.entries, e.2 ≠ [] ∧ ∀ a ∈ e.2, IsText a

/-- A grouped table whose preamble is made of trimmed lines not written as directives. -/
structure IsNormal (table : DirectiveTable) : Prop where
  preamble : ∀ t ∈ table.preamble, t ≠ [] ∧ Text.trim t = t ∧ isLine t = false
  grouped : Grouped table.entries

/-! ## Tables that are read -/

theorem isText_of_ofLine? {line argument : Text} {d : Directive}
    (h : Directive.ofLine? line = some (d, argument)) : IsText argument := by
  unfold Directive.ofLine? at h
  split at h
  · cases hwords : Text.words line with
    | nil => simp [hwords] at h
    | cons w ws =>
      simp only [hwords, Option.map_eq_some_iff] at h
      obtain ⟨d', -, heq⟩ := h
      obtain ⟨-, rfl⟩ := Prod.mk.inj heq
      refine ⟨ws, fun v hv => ?_, rfl⟩
      exact Text.mem_words (s := line) (hwords ▸ List.mem_cons_of_mem w hv)
  · cases h

/-- One more argument leaves a map grouped. -/
theorem Grouped.push {m : OrderedMap Directive (List Text)} (hm : Grouped m)
    {e : Directive × Text} (he : IsText e.2) : Grouped (push m e) := by
  intro x hx
  rcases OrderedMap.mem_put hx with rfl | hx
  · refine ⟨by simp, fun a ha => ?_⟩
    rcases List.mem_append.mp ha with ha | ha
    · cases hfound : m.get? e.1 with
      | none => simp [hfound] at ha
      | some as =>
        rw [hfound, Option.getD_some] at ha
        exact (hm _ (OrderedMap.mem_of_find? hfound)).2 a ha
    · obtain rfl := List.mem_singleton.mp ha
      exact he
  · exact hm x hx

theorem grouped_foldl_push {es : List (Directive × Text)} (hes : ∀ e ∈ es, IsText e.2)
    {m : OrderedMap Directive (List Text)} (hm : Grouped m) : Grouped (es.foldl push m) := by
  induction es generalizing m with
  | nil => exact hm
  | cons e es ih =>
    exact ih (fun e' he' => hes e' (List.mem_cons_of_mem e he'))
      (hm.push (hes e List.mem_cons_self))

/-- **What is read is grouped** by directive, and its arguments are texts. -/
theorem grouped_ofLines (lines : List Text) : Grouped (ofLines lines).entries := by
  refine grouped_foldl_push (fun e he => ?_) nofun
  obtain ⟨line, -, hline⟩ := List.mem_filterMap.mp he
  exact isText_of_ofLine? hline

/-- The table of a block is normal exactly if no line above the first directive is written as one
when trimmed. -/
theorem isNormal_ofLines_iff {block : List Text} :
    IsNormal (ofLines block) ↔ ∀ l ∈ above block, isLine (Text.trim l) = false := by
  constructor
  · intro h l hl
    by_cases hempty : Text.trim l = []
    · rw [hempty]
      rfl
    · exact (h.preamble _ (mem_preamble.mpr ⟨⟨l, hl, rfl⟩, hempty⟩)).2.2
  · intro h
    refine ⟨fun t ht => ?_, grouped_ofLines block⟩
    obtain ⟨⟨l, hl, rfl⟩, hne⟩ := mem_preamble.mp ht
    exact ⟨hne, Text.trim_trim l, h l hl⟩

/-! ## Arguments one after the other -/

/-- The arguments of one directive after each other extend its list by all of them. -/
theorem foldl_push_map (m : OrderedMap Directive (List Text)) (d : Directive) {as : List Text}
    (has : as ≠ []) :
    (as.map fun a => (d, a)).foldl push m = m.insert d ((m.get? d).getD [] ++ as) := by
  induction as generalizing m with
  | nil => exact absurd rfl has
  | cons a as ih =>
    rw [List.map_cons, List.foldl_cons]
    cases as with
    | nil => rfl
    | cons b as =>
      rw [ih (push m (d, a)) (List.cons_ne_nil b as), push, OrderedMap.get?_insert, if_pos rfl,
        OrderedMap.insert_insert, Option.getD_some, List.append_assoc, List.singleton_append]

/-- The entries of a map, with one argument each. -/
def spread (es : List (Directive × List Text)) : List (Directive × Text) :=
  es.flatMap fun e => e.2.map fun a => (e.1, a)

/-- **A map is filled with its own arguments**, if each of its directives has some. -/
theorem foldl_push_spread {es : List (Directive × List Text)} (hnodup : (es.map Prod.fst).Nodup)
    (hne : ∀ e ∈ es, e.2 ≠ []) : (spread es).foldl push ∅ = OrderedMap.ofList es := by
  induction es using List.reverseRecOn with
  | nil => rfl
  | append_singleton es e ih =>
    rw [List.map_append, List.nodup_append] at hnodup
    obtain ⟨hes, -, hdisjoint⟩ := hnodup
    have hnew : e.1 ∉ (OrderedMap.ofList es).keys := by
      rw [OrderedMap.keys, OrderedMap.entries_ofList_of_nodup hes]
      exact fun hmem => hdisjoint e.1 hmem e.1 (by simp) rfl
    have hspread : spread (es ++ [e]) = spread es ++ e.2.map fun a => (e.1, a) := by
      simp [spread]
    rw [hspread, List.foldl_append, ih hes fun x hx => hne x (List.mem_append_left _ hx),
      foldl_push_map _ _ (hne e (by simp)), OrderedMap.get?_of_notMem hnew, Option.getD_none,
      List.nil_append, OrderedMap.ofList_concat]

/-! ## Reading the lines of a table -/

theorem filterMap_ofLine?_lines {table : DirectiveTable} (h : table.IsNormal) :
    table.lines.filterMap Directive.ofLine? = spread table.entries.entries := by
  have hpreamble : table.preamble.filterMap Directive.ofLine? = [] := by
    refine List.filterMap_eq_nil_iff.mpr fun t ht => ?_
    exact Directive.ofLine?_of_not_isLine (h.preamble t ht).2.2
  rw [lines, List.filterMap_append, hpreamble, List.nil_append, List.filterMap_flatMap, spread]
  refine List.flatMap_congr fun e he => ?_
  rw [List.filterMap_map, ← List.filterMap_eq_map]
  refine List.filterMap_congr fun a ha => ?_
  have htext := (h.grouped e he).2 a ha
  exact (Directive.ofLine?_line e.1 a).trans (by rw [htext.unwords_words]; rfl)

theorem above_lines {table : DirectiveTable} (h : table.IsNormal) :
    above table.lines = table.preamble := by
  have hfree : ∀ t ∈ table.preamble, (!isLine t) = true := fun t ht => by
    simp [(h.preamble t ht).2.2]
  have hdirectives : above (table.entries.entries.flatMap fun e => e.2.map e.1.line) = [] := by
    refine above_of_isLine fun l hl => ?_
    obtain ⟨e, -, hl⟩ := List.mem_flatMap.mp hl
    obtain ⟨a, -, rfl⟩ := List.mem_map.mp hl
    exact e.1.isLine_line a
  rw [above] at hdirectives ⊢
  rw [lines, List.takeWhile_append_of_pos hfree, hdirectives, List.append_nil]

theorem preamble_lines {table : DirectiveTable} (h : table.IsNormal) :
    (ofLines table.lines).preamble = table.preamble := by
  have htrim : table.preamble.map Text.trim = table.preamble :=
    (List.map_congr_left fun t ht => (h.preamble t ht).2.1).trans (List.map_id _)
  have hne : ∀ t ∈ table.preamble, (!t.isEmpty) = true := fun t ht => by
    simpa using (h.preamble t ht).1
  rw [preamble_ofLines, above_lines h, htrim, List.filter_eq_self.mpr hne]

theorem ofLines_lines {table : DirectiveTable} (h : table.IsNormal) :
    ofLines table.lines = table := by
  have hentries : (ofLines table.lines).entries = table.entries := by
    change (table.lines.filterMap Directive.ofLine?).foldl push ∅ = table.entries
    rw [filterMap_ofLine?_lines h,
      foldl_push_spread table.entries.nodup fun e he => (h.grouped e he).1,
      OrderedMap.ofList_entries]
  have hpreamble := preamble_lines h
  cases hread : ofLines table.lines with
  | mk entries preamble =>
    rw [hread] at hentries hpreamble
    obtain rfl := hentries
    obtain rfl := hpreamble
    rfl

/-- A preamble with a line written as a directive is not read back: it would end above that line. -/
theorem not_isLine_of_preamble_lines {table : DirectiveTable}
    (h : (ofLines table.lines).preamble = table.preamble) :
    ∀ t ∈ table.preamble, isLine t = false := by
  intro t ht
  obtain ⟨xs, ys, hsplit⟩ := List.append_of_mem ht
  cases hline : isLine t with
  | false => rfl
  | true =>
    rw [lines, hsplit, List.append_assoc, List.cons_append, preamble_insert xs hline] at h
    have hlength := length_preamble_le xs
    rw [h, List.length_append, List.length_cons] at hlength
    omega

/-- **Normal tables** are those that are read back from their lines. -/
theorem ofLines_lines_iff_isNormal {table : DirectiveTable} :
    ofLines table.lines = table ↔ IsNormal table := by
  refine ⟨fun h => ⟨fun t ht => ?_, ?_⟩, ofLines_lines⟩
  · have hfree := not_isLine_of_preamble_lines (congrArg DirectiveTable.preamble h) t ht
    rw [← h] at ht
    obtain ⟨⟨l, -, rfl⟩, hne⟩ := mem_preamble.mp ht
    exact ⟨hne, Text.trim_trim l, hfree⟩
  · rw [← h]
    exact grouped_ofLines table.lines

/-- **The normal form of a block.**  Reading the lines of the table of a block gives the table back
exactly if no line above the first directive is written as one when trimmed. Whatever the block,
each directive of its table stands there once and has an argument, and every argument is a list of
words joined with single spaces. -/
theorem ofLines_lines_iff (block : List Text) :
    (ofLines (ofLines block).lines = ofLines block ↔
      ∀ l ∈ above block, isLine (Text.trim l) = false) ∧
    (ofLines block).entries.keys.Nodup ∧
    ∀ e ∈ (ofLines block).entries.entries, e.2 ≠ [] ∧ ∀ a ∈ e.2, IsText a :=
  ⟨ofLines_lines_iff_isNormal.trans isNormal_ofLines_iff, (ofLines block).entries.nodup,
    grouped_ofLines block⟩

/-- Directives that are interleaved, unknown or spelled otherwise, and blanks. -/
example : (ofLines ["  Pads ", "@param id  int", "@tags a,	b", "more", "@nothing", "@param"]).lines =
    ["Pads", "@param id int", "@param ", "@tag a, b"] := by
  decide

end DirectiveTable

end ApiAnnotations

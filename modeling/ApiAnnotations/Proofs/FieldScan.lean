import ApiAnnotations.Proofs.FieldLines
import Mathlib.Data.List.Forall2

/-! # The scan of a declaration

The fields of a model are read line by line, from the line behind its annotation down to the first
closing line.

* `scanEnd style lines start` : the first closing line from `start` on, or the number of lines;
  `IsScanEnd` says so with indices.
* `HasField style line`, `IsFieldIn line f` : the lines that have a field, and the field in a line.
  `forall₂_fields` : the scan reads one field from each of these lines.
* `body_eq_map` : the lines that are scanned. `Model.body_eq_of_agree` : no other line matters if
  there is a closing line.
* `Model.parse_scan_exact` puts them together. -/

namespace ApiAnnotations

/-! ## Where a scan ends -/

/-- The first closing line from line `start` on; the number of lines if there is none. -/
def scanEnd (style : DeclarationStyle) (lines : List Text) (start : Nat) : Nat :=
  ((List.range lines.length).find? fun i => decide (start ≤ i ∧ IsClosingAt style lines i)).getD
    lines.length

/-- A scan from `start` on meets no closing line above `stop`, and ends there. -/
structure IsScanEnd (style : DeclarationStyle) (lines : List Text) (start stop : Nat) : Prop where
  above : ∀ i, start ≤ i → i < stop → ¬ IsClosingAt style lines i
  at_stop : (start ≤ stop ∧ IsClosingAt style lines stop) ∨ stop = lines.length

section

variable {style : DeclarationStyle} {lines : List Text} {start stop : Nat}

theorem isScanEnd_scanEnd (style : DeclarationStyle) (lines : List Text) (start : Nat) :
    IsScanEnd style lines start (scanEnd style lines start) := by
  unfold scanEnd
  cases hfind : (List.range lines.length).find?
      fun i => decide (start ≤ i ∧ IsClosingAt style lines i) with
  | none =>
    refine ⟨fun i hi _ hclose => ?_, .inr rfl⟩
    have hnone := List.find?_eq_none.mp hfind i (List.mem_range.mpr hclose.lt)
    exact hnone (decide_eq_true ⟨hi, hclose⟩)
  | some stop =>
    obtain ⟨hstop, -, hfirst⟩ := List.find?_range_eq_some.mp hfind
    refine ⟨fun i hi hlt hclose => ?_, .inl (of_decide_eq_true hstop)⟩
    have hnot := hfirst i hlt
    rw [decide_eq_true ⟨hi, hclose⟩] at hnot
    exact Bool.false_ne_true hnot

/-- **The lines of a scan** are those above its end. -/
theorem body_eq_map (h : IsScanEnd style lines start stop) :
    Model.body style lines start =
      ((lines.drop start).take (stop - start)).map (BodyLine.of style) := by
  have hscanned : ∀ l ∈ ((lines.drop start).take (stop - start)).map (BodyLine.of style),
      decide (l ≠ .closing) = true := by
    intro l hl
    obtain ⟨line, hline, rfl⟩ := List.mem_map.mp hl
    obtain ⟨i, hi, hlt, hget⟩ := exists_of_mem_take_drop hline
    refine decide_eq_true fun hclosing => h.above i hi (by omega) ?_
    exact ⟨line, hget, of_eq_closing_iff.mp hclosing⟩
  have hrest : (((lines.drop start).drop (stop - start)).map (BodyLine.of style)).takeWhile
      (fun l => l ≠ .closing) = [] := by
    rw [List.drop_drop]
    obtain ⟨hle, hclose⟩ | hlength := h.at_stop
    · have hlt := hclose.lt
      have hclosing := of_eq_closing_iff.mpr ((HoldsAt.iff_getElem hlt).mp hclose)
      rw [Nat.add_sub_cancel' hle, List.drop_eq_getElem_cons hlt, List.map_cons, hclosing]
      rfl
    · rw [List.drop_eq_nil_of_le (by omega)]
      rfl
  rw [Model.body]
  conv_lhs => rw [← List.take_append_drop (stop - start) (lines.drop start)]
  rw [List.map_append, List.takeWhile_append_of_pos hscanned, hrest, List.append_nil]

end

/-! ## Fields of lines -/

/-- A line that is not blank, does not begin with the keyword, is no comment and has two words. -/
def HasField (style : DeclarationStyle) (line : Text) : Prop :=
  Text.trim line ≠ [] ∧ Text.startsWith style.keyword (Text.trimStart line) = false ∧
    (Text.trim style.commentStart ≠ [] →
      Text.startsWith (Text.trim style.commentStart) (Text.trim line) = false) ∧
    2 ≤ (Text.words line).length

instance (style : DeclarationStyle) (line : Text) : Decidable (HasField style line) :=
  inferInstanceAs (Decidable (_ ∧ _ ∧ _ ∧ _))

/-- The first word of the line is the name of the field, and the second word its type. -/
def IsFieldIn (line : Text) (f : ModelField) : Prop :=
  ∃ type rest, Text.words line = f.name :: type :: rest ∧ f.type = .ofToken type

namespace BodyLine

variable {style : DeclarationStyle} {line : Text}

theorem isComment_eq_false_iff {trimmed : Text} :
    of.isComment style trimmed = false ↔ (Text.trim style.commentStart ≠ [] →
      Text.startsWith (Text.trim style.commentStart) trimmed = false) := by
  simp [of.isComment, Bool.and_eq_false_imp]

theorem field?_of_hasField (h : HasField style line) :
    ∃ f, (of style line).field? = some f ∧ IsFieldIn line f := by
  obtain ⟨hblank, hkeyword, hcomment, hlength⟩ := h
  have hcomment := isComment_eq_false_iff.mpr hcomment
  have hclosing : Text.trim line ≠ ['}'] := by
    intro htrim
    rw [← Text.words_trim, htrim] at hlength
    exact absurd hlength (by decide)
  match hwords : Text.words line, hlength with
  | name :: type :: rest, _ =>
    refine ⟨⟨name, .ofToken type⟩, ?_, type, rest, hwords, rfl⟩
    simp [of, hblank, hkeyword, hclosing, hcomment, Text.words_trim, hwords, field?]

theorem hasField_of_field? {f : ModelField} (h : (of style line).field? = some f) :
    HasField style line := by
  unfold of at h
  simp only at h
  split at h
  · cases h
  · next hblank =>
    split at h
    · cases h
    · next hkeyword =>
      split at h
      · cases h
      · split at h
        · cases h
        · next hcomment =>
          refine ⟨by simpa using hblank, by simpa using hkeyword,
            isComment_eq_false_iff.mp (by simpa using hcomment), ?_⟩
          split at h
          · next hwords =>
            rw [← Text.words_trim, hwords, List.length_cons, List.length_cons]
            omega
          · cases h

end BodyLine

/-- Each element that is kept is mapped, and no other one. -/
theorem forall₂_filter_filterMap {α β : Type} {p : α → Prop} [DecidablePred p] {f : α → Option β}
    {R : α → β → Prop} (hkept : ∀ a, p a → ∃ b, f a = some b ∧ R a b)
    (hdropped : ∀ a, ¬ p a → f a = none) (as : List α) :
    List.Forall₂ R (as.filter p) (as.filterMap f) := by
  induction as with
  | nil => exact .nil
  | cons a as ih =>
    rw [List.filter_cons]
    by_cases ha : p a
    · obtain ⟨b, hb, hr⟩ := hkept a ha
      rw [if_pos (decide_eq_true ha), List.filterMap_cons_some hb]
      exact .cons hr ih
    · rw [if_neg (by simpa using ha), List.filterMap_cons_none (hdropped a ha)]
      exact ih

/-- **The fields of lines** are one for each line that has a field, in order. -/
theorem forall₂_fields (style : DeclarationStyle) (lines : List Text) :
    List.Forall₂ IsFieldIn (lines.filter (HasField style ·))
      ((lines.map (BodyLine.of style)).filterMap BodyLine.field?) := by
  rw [List.filterMap_map]
  refine forall₂_filter_filterMap (fun _ => BodyLine.field?_of_hasField) (fun line hline => ?_) lines
  cases hfield : (BodyLine.of style line).field? with
  | none => rfl
  | some f => exact absurd (BodyLine.hasField_of_field? hfield) hline

/-! ## Models -/

namespace Model

variable {style : DeclarationStyle} {lines : List Text} {start stop : Nat}

/-- A scan that ends at a closing line sees no line outside. -/
theorem body_eq_of_agree (hstop : IsScanEnd style lines start stop)
    (hclose : IsClosingAt style lines stop) {other : List Text}
    (hagree : ∀ i, start ≤ i → i ≤ stop → other[i]? = lines[i]?) :
    body style other start = body style lines start := by
  have hsame : ∀ i, start ≤ i → i ≤ stop →
      (IsClosingAt style other i ↔ IsClosingAt style lines i) := by
    intro i hi hle
    unfold IsClosingAt HoldsAt
    rw [hagree i hi hle]
  have hle : start ≤ stop := by
    obtain ⟨hle, -⟩ | hlength := hstop.at_stop
    · exact hle
    · have hlt := hclose.lt
      omega
  have hother : IsScanEnd style other start stop := by
    refine ⟨fun i hi hlt hcl => ?_, .inl ⟨hle, (hsame stop hle (Nat.le_refl stop)).mpr hclose⟩⟩
    exact hstop.above i hi hlt ((hsame i hi (Nat.le_of_lt hlt)).mp hcl)
  have hlines : (other.drop start).take (stop - start) = (lines.drop start).take (stop - start) := by
    apply List.ext_getElem?
    intro k
    by_cases hk : k < stop - start
    · rw [List.getElem?_take_of_lt hk, List.getElem?_take_of_lt hk, List.getElem?_drop,
        List.getElem?_drop, hagree (start + k) (by omega) (by omega)]
    · rw [List.getElem?_take_eq_none (by omega), List.getElem?_take_eq_none (by omega)]
  rw [body_eq_map hother, body_eq_map hstop, hlines]

/-- **The scan of a declaration.**  A block whose first `@model` names something makes a model of
that name. Its fields are those of the lines from the place of the model down to the first closing
line, or to the end of the file: one for each line that has a field, in order. If there is a closing
line, every text with the same lines from the place to it makes the same model. -/
theorem parse_scan_exact (style : DeclarationStyle) (lines : List Text) (table : DirectiveTable)
    (place : Place) {argument name : Text} {others : List Text}
    (hargument : table.first? .model = some argument)
    (hname : Text.words argument = name :: others) :
    ∃ m, parse style lines table place = .ok m ∧ m.name = name ∧
      m.description = table.description ∧ m.place = place ∧
      List.Forall₂ IsFieldIn (((lines.drop place.line).take
        (scanEnd style lines place.line - place.line)).filter (HasField style ·)) m.fields ∧
      (IsClosingAt style lines (scanEnd style lines place.line) → ∀ other : List Text,
        (∀ i, place.line ≤ i → i ≤ scanEnd style lines place.line → other[i]? = lines[i]?) →
        parse style other table place = .ok m) := by
  have hend := isScanEnd_scanEnd style lines place.line
  have hread : nameOf table = .ok name := by
    simp only [nameOf, hargument, hname]
  have hparse : ∀ other, parse style other table place = .ok
      ⟨name, table.description, place, (body style other place.line).filterMap BodyLine.field?⟩ := by
    intro other
    rw [parse, hread]
  refine ⟨_, hparse lines, rfl, rfl, rfl, ?_, fun hclose other hagree => ?_⟩
  · rw [body_eq_map hend]
    exact forall₂_fields style _
  · rw [hparse other, body_eq_of_agree hend hclose hagree]

/-- A declaration with a comment, an embedded type, a line with the keyword, and a line below it. -/
def padLines : List Text :=
  ["// @model Pad of paper", "type Pad struct \x7b", "", "\t// Width is a number", "\tBase",
    "\tWidth  int64 omitted", "  type \x7d", "\tOwner []*people.User", " \x7d ", "\tLost int"]

theorem parse_scan_exact_pad :
    let style : DeclarationStyle := ⟨"type ", "// "⟩
    let table : DirectiveTable := .ofLines ["@model Pad of paper"]
    let place : Place := ⟨"p.go", 1⟩
    table.first? .model = some "Pad of paper".toList ∧
    Text.words "Pad of paper" = ["Pad", "of", "paper"] ∧
    (∃ m, parse style padLines table place = .ok m ∧ m.name = "Pad".toList ∧
      m.description = table.description ∧ m.place = place ∧
      List.Forall₂ IsFieldIn (((padLines.drop place.line).take
        (scanEnd style padLines place.line - place.line)).filter (HasField style ·)) m.fields ∧
      (IsClosingAt style padLines (scanEnd style padLines place.line) → ∀ other : List Text,
        (∀ i, place.line ≤ i → i ≤ scanEnd style padLines place.line →
          other[i]? = padLines[i]?) →
        parse style other table place = .ok m)) ∧
    scanEnd style padLines place.line = 8 ∧
    parse style padLines table place = .ok ⟨"Pad", none, place,
      [⟨"Width", .primitive .integer⟩, ⟨"Owner", .array "User"⟩]⟩ := by
  intro style table place
  have hargument : table.first? .model = some "Pad of paper".toList := by decide
  have hname : Text.words "Pad of paper" = ["Pad", "of", "paper"] := by decide
  exact ⟨hargument, hname, parse_scan_exact style padLines table place hargument hname,
    by decide +kernel, by decide +kernel⟩

end Model

end ApiAnnotations

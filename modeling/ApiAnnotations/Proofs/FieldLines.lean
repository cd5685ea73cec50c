import ApiAnnotations.Proofs.MarkedBlocks
import ApiAnnotations.Proofs.ReadRecords

/-! # Lines of fields

Which lines of a file give a model its fields, said of the indices of lines.

* `IsClosingAt style lines i` : line `i` is a closing brace and nothing else.
* `fieldsFrom style lines start` : the lines from `start` on that have a field, down to the next
  closing line.
* `filterMap_fieldsFrom` : the fields read from `start` are those of these lines, in order.
* `fields_apart_iff` : two models of a file have no field line in common exactly if there is a
  closing line between the ends of their annotations, or the second model has no fields. -/

namespace ApiAnnotations

/-- A line that ends a declaration. -/
def closes (style : DeclarationStyle) (line : Text) : Bool :=
  decide (Text.trim line = ['}']) && !Text.startsWith style.keyword (Text.trimStart line)

/-- With the default keyword these are the lines that are a closing brace once trimmed. -/
theorem closes_default (line : Text) :
    closes ({} : Config).declarationStyle line = true ↔ Text.trim line = ['}'] := by
  unfold closes
  rw [Bool.and_eq_true, decide_eq_true_eq]
  refine ⟨And.left, fun h => ⟨h, ?_⟩⟩
  -- Such a line begins with a brace, which the keyword does not.
  obtain ⟨rest, hrest⟩ := Text.trimEnd_isPrefix (Text.trimStart line)
  have hstart : Text.trimStart line = ['}'] ++ rest := by
    rw [← hrest]
    exact congrArg (· ++ rest) h
  rw [hstart]
  rfl

/-- Line `i` ends a declaration. -/
abbrev IsClosingAt (style : DeclarationStyle) (lines : List Text) (i : Nat) : Prop :=
  HoldsAt (closes style) lines i

/-- The field in line `i`. -/
def fieldAt (style : DeclarationStyle) (lines : List Text) (i : Nat) : Option ModelField :=
  lines[i]?.bind fun line => (BodyLine.of style line).field?

/-- The lines with a field from `start` on, with no closing line between. -/
def fieldsFrom (style : DeclarationStyle) (lines : List Text) (start : Nat) : List Nat :=
  (List.range lines.length).filter fun i =>
    start ≤ i ∧ (fieldAt style lines i).isSome ∧ ∀ j < i, start ≤ j → ¬ IsClosingAt style lines j

section

variable {style : DeclarationStyle} {line : Text} {lines : List Text} {start i : Nat}

theorem of_eq_closing_iff : BodyLine.of style line = .closing ↔ closes style line = true := by
  unfold BodyLine.of closes
  simp only
  by_cases hempty : Text.trim line = []
  · simp [hempty]
  · cases hkeyword : Text.startsWith style.keyword (Text.trimStart line) with
    | true => simp [hempty]
    | false =>
      by_cases hbrace : Text.trim line = ['}']
      · simp [hbrace]
      · simp only [List.isEmpty_iff, hempty, hbrace, Bool.false_eq_true, if_false, decide_false,
          Bool.false_and, iff_false]
        repeat' split
        all_goals exact nofun

theorem mem_fieldsFrom :
    i ∈ fieldsFrom style lines start ↔ start ≤ i ∧ (fieldAt style lines i).isSome ∧
      ∀ j < i, start ≤ j → ¬ IsClosingAt style lines j := by
  simp only [fieldsFrom, List.mem_filter, List.mem_range, decide_eq_true_eq, and_iff_right_iff_imp]
  rintro ⟨-, hfield, -⟩
  rcases Nat.lt_or_ge i lines.length with hlt | hge
  · exact hlt
  · rw [fieldAt, List.getElem?_eq_none hge] at hfield
    exact absurd hfield Bool.false_ne_true

/-! ## The scan for fields -/

theorem fieldAt_cons_succ : fieldAt style (line :: lines) (i + 1) = fieldAt style lines i := rfl

/-- Field lines below a first line that is not scanned. -/
theorem fieldsFrom_cons_succ :
    fieldsFrom style (line :: lines) (start + 1) = (fieldsFrom style lines start).map (· + 1) := by
  rw [fieldsFrom, List.length_cons, List.range_succ_eq_map, List.filter_cons_of_neg (by simp),
    List.filter_map]
  congr 1
  refine List.filter_congr fun i _ => decide_eq_decide.mpr ?_
  rw [Nat.succ_eq_add_one, Nat.add_le_add_iff_right, fieldAt_cons_succ, Nat.forall_lt_succ_left]
  simp [HoldsAt.cons_succ]

/-- A scan that begins at a closing line finds nothing. -/
theorem fieldsFrom_of_closes (h : closes style line = true) :
    fieldsFrom style (line :: lines) 0 = [] := by
  refine List.eq_nil_iff_forall_not_mem.mpr fun i hi => ?_
  obtain ⟨-, hfield, hopen⟩ := mem_fieldsFrom.mp hi
  cases i with
  | zero =>
    rw [fieldAt, List.getElem?_cons_zero, Option.bind_some, of_eq_closing_iff.mpr h] at hfield
    exact Bool.false_ne_true hfield
  | succ i => exact hopen 0 (by omega) (Nat.le_refl 0) ⟨line, rfl, h⟩

/-- A scan that begins at any other line goes on below it. -/
theorem fieldsFrom_cons_zero (h : closes style line = false) :
    fieldsFrom style (line :: lines) 0 =
      [0].filter (fun i => (fieldAt style (line :: lines) i).isSome) ++
        (fieldsFrom style lines 0).map (· + 1) := by
  have hopen : ¬ IsClosingAt style (line :: lines) 0 := by
    rintro ⟨l, hl, hclose⟩
    obtain rfl := Option.some.inj hl
    exact Bool.false_ne_true (h.symm.trans hclose)
  have hrange : List.range (line :: lines).length = [0] ++ (List.range lines.length).map (· + 1) :=
    List.range_succ_eq_map
  rw [fieldsFrom, hrange, List.filter_append, List.filter_map]
  congr 1
  · exact List.filter_congr fun i hi => by simp_all
  · congr 1
    refine List.filter_congr fun i _ => decide_eq_decide.mpr ?_
    simp only [Nat.zero_le, true_and, forall_const, fieldAt_cons_succ]
    rw [Nat.forall_lt_succ_left]
    simp [hopen, HoldsAt.cons_succ]

/-- **The scan for fields** that begins at a line reads its field lines. -/
theorem filterMap_fieldsFrom (style : DeclarationStyle) (lines : List Text) (start : Nat) :
    (fieldsFrom style lines start).filterMap (fieldAt style lines) =
      (Model.body style lines start).filterMap BodyLine.field? := by
  induction lines generalizing start with
  | nil => simp [fieldsFrom, Model.body]
  | cons line lines ih =>
    cases start with
    | succ start =>
      rw [fieldsFrom_cons_succ, List.filterMap_map, Model.body, List.drop_succ_cons]
      exact ih start
    | zero =>
      have hbody := ih 0
      rw [Model.body, List.drop_zero] at hbody ⊢
      rw [List.map_cons, List.takeWhile_cons]
      cases hclose : closes style line with
      | true => simp [fieldsFrom_of_closes hclose, of_eq_closing_iff.mpr hclose]
      | false =>
        have hne : BodyLine.of style line ≠ .closing := by
          rw [Ne, of_eq_closing_iff, hclose]
          exact Bool.false_ne_true
        rw [fieldsFrom_cons_zero hclose, if_pos (by simpa using hne), List.filterMap_append,
          List.filterMap_map, List.filterMap_cons]
        have htail : (fieldsFrom style lines 0).filterMap
            (fieldAt style (line :: lines) ∘ (· + 1)) = _ := hbody
        have hhead : fieldAt style (line :: lines) 0 = (BodyLine.of style line).field? := rfl
        rw [htail]
        cases hfield : (BodyLine.of style line).field? with
        | none => simp [hhead, hfield]
        | some f => simp [hhead, hfield]

/-! ## Two scans -/

/-- A scan goes on into a later one if there is no closing line between. -/
theorem mem_fieldsFrom_of_open {stop : Nat} (hle : start ≤ stop)
    (hopen : ∀ j < stop, start ≤ j → ¬ IsClosingAt style lines j)
    (hi : i ∈ fieldsFrom style lines stop) : i ∈ fieldsFrom style lines start := by
  obtain ⟨hstop, hfield, hbelow⟩ := mem_fieldsFrom.mp hi
  refine mem_fieldsFrom.mpr ⟨Nat.le_trans hle hstop, hfield, fun j hj hstart => ?_⟩
  rcases Nat.lt_or_ge j stop with hlt | hge
  · exact hopen j hlt hstart
  · exact hbelow j hj hge

/-- Two scans have no field line in common exactly if there is a closing line between their
beginnings, or the later one finds nothing. -/
theorem disjoint_fieldsFrom_iff {stop : Nat} (hle : start ≤ stop) :
    (∀ i ∈ fieldsFrom style lines start, i ∉ fieldsFrom style lines stop) ↔
      fieldsFrom style lines stop = [] ∨ ∃ j, start ≤ j ∧ j < stop ∧ IsClosingAt style lines j := by
  constructor
  · intro hdisjoint
    by_cases hclose : ∃ j, start ≤ j ∧ j < stop ∧ IsClosingAt style lines j
    · exact .inr hclose
    · refine .inl (List.eq_nil_iff_forall_not_mem.mpr fun i hi => hdisjoint i ?_ hi)
      exact mem_fieldsFrom_of_open hle (fun j hj hstart hc => hclose ⟨j, hstart, hj, hc⟩) hi
  · rintro (hnil | ⟨j, hstart, hstop, hclose⟩) i hi hi'
    · rw [hnil] at hi'
      exact List.not_mem_nil hi'
    · have hlt : j < i := Nat.lt_of_lt_of_le hstop (mem_fieldsFrom.mp hi').1
      exact (mem_fieldsFrom.mp hi).2.2 j hlt hstart hclose

theorem filterMap_fieldsFrom_eq_nil :
    (fieldsFrom style lines start).filterMap (fieldAt style lines) = [] ↔
      fieldsFrom style lines start = [] := by
  constructor
  · intro h
    refine List.eq_nil_iff_forall_not_mem.mpr fun i hi => ?_
    have hsome := (mem_fieldsFrom.mp hi).2.1
    rw [List.filterMap_eq_nil_iff.mp h i hi] at hsome
    exact Bool.false_ne_true hsome
  · intro h
    rw [h, List.filterMap_nil]

end

/-! ## Models of a file -/

namespace CommentBlock

variable {start marker : Text} {lines : List Text} {j k : Nat}

/-- The block around a line ends no earlier than that around a line above it. -/
theorem lastLine_le (hjk : j ≤ k) (hk : k < lines.length) :
    (around start lines j).lastLine ≤ (around start lines k).lastLine := by
  have hsj := surrounds_around start (Nat.lt_of_le_of_lt hjk hk)
  have hsk := surrounds_around start hk
  rcases Nat.lt_or_ge (around start lines j).lastLine k with hlt | hge
  · exact Nat.le_trans (Nat.le_of_lt hlt) hsk.le_last
  · exact Nat.le_of_eq (hsj.last_eq hsk hjk hge).symm

theorem lastLine_pairwise (start marker : Text) (lines : List Text) :
    (marked start marker lines).Pairwise (fun b c => b.lastLine ≤ c.lastLine) := by
  rw [marked_eq_map_openers, List.pairwise_map]
  refine (openers_pairwise start marker lines).imp_of_mem fun {j k} hj hk hjk => ?_
  exact lastLine_le (Nat.le_of_lt hjk) (mem_openers.mp hk).lt_length

end CommentBlock

namespace Extraction

/-- The declarations of the models of a file begin in the order of the models. -/
theorem line_pairwise_models (config : Config) (source : SourceFile) :
    (models config source).Pairwise (fun m n => m.place.line ≤ n.place.line) := by
  rw [models, records, List.pairwise_filterMap]
  refine (CommentBlock.lastLine_pairwise ..).imp fun {b c} hbc m hm n hn => ?_
  rw [(Model.of_parse (eq_ok_of_toOption hm)).2.1,
    (Model.of_parse (eq_ok_of_toOption hn)).2.1]
  exact Nat.add_le_add_right hbc 1

end Extraction

/-- The lines of the file that give the model its fields. -/
def Model.fieldLines (config : Config) (source : SourceFile) (m : Model) : List Nat :=
  fieldsFrom config.declarationStyle source.lines m.place.line

/-- **Models without a field line in common.**  By default a closing line is a closing brace once
trimmed. The fields of a model are those of its field lines. Of two models the later one is declared
no further up; no field line is in both exactly if there is a closing line between the two places or
the later one has no fields, and without such a closing line the earlier one has all field lines of
the later. -/
theorem fields_apart_iff (config : Config) (source : SourceFile) :
    (∀ line, closes ({} : Config).declarationStyle line = true ↔ Text.trim line = ['}']) ∧
    (∀ m ∈ (FileRecords.ofSource config source).models, m.fields =
      (m.fieldLines config source).filterMap (fieldAt config.declarationStyle source.lines)) ∧
    (FileRecords.ofSource config source).models.Pairwise fun m n =>
      m.place.line ≤ n.place.line ∧
      ((∀ i ∈ m.fieldLines config source, i ∉ n.fieldLines config source) ↔ n.fields = [] ∨
        ∃ i, m.place.line ≤ i ∧ i < n.place.line ∧
          IsClosingAt config.declarationStyle source.lines i) ∧
      ((∀ i < n.place.line, m.place.line ≤ i →
          ¬ IsClosingAt config.declarationStyle source.lines i) →
        ∀ i ∈ n.fieldLines config source, i ∈ m.fieldLines config source) := by
  have hfields : ∀ m ∈ (FileRecords.ofSource config source).models, m.fields =
      (m.fieldLines config source).filterMap (fieldAt config.declarationStyle source.lines) := by
    intro m hm
    obtain ⟨b, -, hb⟩ := exists_ok_of_mem hm
    obtain ⟨-, hplace, hfields⟩ := Model.of_parse hb
    rw [hfields, Model.fieldLines, filterMap_fieldsFrom, hplace]
  refine ⟨closes_default, hfields, (Extraction.line_pairwise_models config source).imp_of_mem
    fun {m n} _ hn hle => ⟨hle, ?_, fun hopen i => mem_fieldsFrom_of_open hle hopen⟩⟩
  rw [hfields n hn]
  exact (disjoint_fieldsFrom_iff hle).trans (or_congr_left filterMap_fieldsFrom_eq_nil.symm)

/-- A model of a type without a body, above one of a struct. -/
def aliasAboveStruct : SourceFile :=
  ⟨"u.go", ["// @model ID", "type ID string", "", "// @model User", "type User struct \x7b",
    "\tName string", "\x7d"]⟩

/-- The one field of the struct is also the field of the model above it. -/
theorem aliasAboveStruct_shares :
    (FileRecords.ofSource {} aliasAboveStruct).models =
      [⟨"ID", none, ⟨"u.go", 1⟩, [⟨"Name", .primitive .string⟩]⟩,
        ⟨"User", none, ⟨"u.go", 4⟩, [⟨"Name", .primitive .string⟩]⟩] ∧
    ¬ (FileRecords.ofSource {} aliasAboveStruct).models.Pairwise (fun m n =>
      ∀ i ∈ m.fieldLines {} aliasAboveStruct, i ∉ n.fieldLines {} aliasAboveStruct) := by
  have hmodels : (FileRecords.ofSource {} aliasAboveStruct).models =
      [⟨"ID", none, ⟨"u.go", 1⟩, [⟨"Name", .primitive .string⟩]⟩,
        ⟨"User", none, ⟨"u.go", 4⟩, [⟨"Name", .primitive .string⟩]⟩] := by
    decide +kernel
  refine ⟨hmodels, fun hapart => ?_⟩
  rw [hmodels] at hapart
  have hdisjoint := List.rel_of_pairwise_cons hapart (List.mem_singleton.mpr rfl)
  exact hdisjoint 5 (by decide +kernel) (by decide +kernel)

end ApiAnnotations

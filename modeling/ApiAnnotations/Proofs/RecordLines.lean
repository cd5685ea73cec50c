import ApiAnnotations.Proofs.Annotation
import ApiAnnotations.Proofs.ClosingLine
import Mathlib.Data.List.TakeWhile

/-! # The lines of a written record

A record is written as comments and the code they annotate. Read on their own, they make that record
and nothing else.

* `marked_eq_cons` : a marked run at the top of a file is its first block.
* `marked_comments_code` : the first block of a record is its comments, and no other block has a
  directive.
* `routes_comments_code` and `models_comments_code` : what is read from a record. -/

namespace ApiAnnotations

/-! ## Comments above code -/

section

variable {start marker : Text} {lines comments code : List Text} {k last : Nat}

theorem isRun_append (hne : comments ≠ [])
    (hcomments : ∀ l ∈ comments, isCommentLine start l = true)
    (hcode : ∀ l ∈ code, isCommentLine start l = false) :
    IsRun start (comments ++ code) 0 (comments.length - 1) := by
  have hpos := List.length_pos_iff.mpr hne
  refine ⟨Nat.zero_le _, fun i _ hi => ?_, fun i hi => by omega, fun hc => ?_⟩
  · exact (HoldsAt.append_left (by omega)).mpr (HoldsAt.of_forall hcomments (by omega))
  · rw [Nat.sub_add_cancel hpos] at hc
    exact HoldsAt.not_of_forall hcode ((HoldsAt.append_right (i := 0)).mp hc)

namespace CommentBlock

/-- A marked run at the top of a file is the first block, and the other blocks are below it. -/
theorem marked_eq_cons (hrun : IsRun start lines 0 last) (hk : k ≤ last)
    (hmarked : IsMarkedAt marker lines k) :
    ∃ rest, marked start marker lines = ⟨bodies start lines 0 (last + 1), 0, last⟩ :: rest ∧
      ∀ b ∈ rest, last < b.firstLine := by
  have hmem := run_mem_marked hrun (Nat.zero_le k) hk hmarked
  have hsorted := firstLine_pairwise start marker lines
  have hbelow : ∀ b ∈ marked start marker lines, 0 < b.firstLine → last < b.firstLine := by
    intro b hb hpos
    rw [marked_eq_map_openers] at hb
    obtain ⟨j, hj, rfl⟩ := List.mem_map.mp hb
    have hs := (mem_openers.mp hj).surrounds
    rcases Nat.lt_or_ge last (around start lines j).firstLine with hlt | hge
    · exact hlt
    · exact absurd (hrun.comment ((around start lines j).firstLine - 1) (Nat.zero_le _) (by omega))
        (hs.before _ (by omega))
  cases hblocks : marked start marker lines with
  | nil =>
    rw [hblocks] at hmem
    exact absurd hmem List.not_mem_nil
  | cons c rest =>
    rw [hblocks] at hmem hsorted hbelow
    obtain ⟨hc, -⟩ := List.pairwise_cons.mp hsorted
    rcases List.mem_cons.mp hmem with rfl | hmem
    · exact ⟨rest, rfl, fun b hb => hbelow b (List.mem_cons_of_mem _ hb) (hc b hb)⟩
    · exact absurd (hc _ hmem) (Nat.not_lt_zero _)

theorem mem_lines_of_mem_marked {b : CommentBlock} {line : Text}
    (hb : b ∈ marked start marker lines) (hline : line ∈ b.lines) :
    ∃ i l, b.firstLine ≤ i ∧ lines[i]? = some l ∧ line = uncomment start l := by
  rw [marked_eq_map_openers] at hb
  obtain ⟨j, hj, rfl⟩ := List.mem_map.mp hb
  rw [around_eq (mem_openers.mp hj).surrounds] at hline
  exact mem_span hline

end CommentBlock

end

/-! ## The lines of a record -/

namespace Record

variable {x : Record} {l : Text} {d : Directive} {a : Text}

theorem line_mem_comments (h : a ∈ x.arguments d) : "// ".toList ++ d.line a ∈ x.comments :=
  List.mem_map_of_mem (Directive.mem_annotate.mpr ⟨d, a, h, rfl⟩)

theorem isCommentLine_of_mem_comments (h : l ∈ x.comments) : isCommentLine "// " l = true := by
  obtain ⟨b, -, rfl⟩ := List.mem_map.mp h
  exact isCommentLine_iff.mpr ⟨by decide, b, rfl⟩

/-- Code begins with the declaration keyword or a tab. -/
theorem exists_of_mem_code (h : l ∈ x.code) : ∃ s, l = 't' :: s ∨ l = '\t' :: s := by
  cases x with
  | route r => exact absurd h List.not_mem_nil
  | model m declared =>
    rcases List.mem_cons.mp h with rfl | h
    · exact ⟨_, .inl rfl⟩
    · obtain ⟨f, -, rfl⟩ := List.mem_map.mp h
      exact ⟨_, .inr rfl⟩

theorem isCommentLine_of_mem_code (h : l ∈ x.code) : isCommentLine "// " l = false := by
  obtain ⟨s, rfl | rfl⟩ := exists_of_mem_code h
  · rfl
  · rfl

theorem ofLine?_of_mem_code (h : l ∈ x.code) : Directive.ofLine? l = none := by
  obtain ⟨s, rfl | rfl⟩ := exists_of_mem_code h
  · rfl
  · rfl

/-- The marker by which the record is found. -/
def marker : Record → Text
  | .route _ => "@route"
  | .model _ _ => "@model "

theorem exists_marked (x : Record) : ∃ l ∈ x.comments, Text.contains x.marker l = true := by
  cases x with
  | route r =>
    refine ⟨_, line_mem_comments (d := .route) (List.mem_singleton.mpr rfl), ?_⟩
    exact Text.contains_iff.mpr ⟨"// ".toList, _, rfl⟩
  | model m declared =>
    refine ⟨_, line_mem_comments (d := .model) (List.mem_singleton.mpr rfl), ?_⟩
    exact Text.contains_iff.mpr ⟨"// ".toList, m.name, rfl⟩

/-! ## The blocks of a record -/

theorem isRun_comments (x : Record) :
    IsRun "// " (x.comments ++ x.code) 0 (x.comments.length - 1) := by
  obtain ⟨l, hl, -⟩ := x.exists_marked
  exact isRun_append (List.ne_nil_of_mem hl) (fun l hl => isCommentLine_of_mem_comments hl)
    fun l hl => isCommentLine_of_mem_code hl

theorem bodies_comments (x : Record) :
    bodies "// " (x.comments ++ x.code) 0 x.comments.length = x.block := by
  rw [bodies, List.drop_zero, Nat.sub_zero, List.take_left, comments, List.map_map]
  simp [Function.comp_def]

/-- A line of a block is an uncommented comment or code. -/
theorem mem_block_or_code {marker : Text} {b : CommentBlock}
    (hb : b ∈ CommentBlock.marked "// " marker (x.comments ++ x.code)) (hl : l ∈ b.lines) :
    l ∈ x.block ∨ l ∈ x.code := by
  obtain ⟨i, k, -, hk, rfl⟩ := CommentBlock.mem_lines_of_mem_marked hb hl
  rcases List.mem_append.mp (List.mem_of_getElem? hk) with h | h
  · obtain ⟨c, hc, rfl⟩ := List.mem_map.mp h
    exact .inl hc
  · rw [uncomment_of_code (isCommentLine_of_mem_code h)]
    exact .inr h

/-- No block has a directive that the record lacks. -/
theorem first?_of_mem_marked {marker : Text} {b : CommentBlock}
    (hb : b ∈ CommentBlock.marked "// " marker (x.comments ++ x.code))
    (hd : x.arguments d = []) : b.table.first? d = none := by
  refine DirectiveTable.first?_eq_none_of_forall fun l hl a heq => ?_
  rcases mem_block_or_code hb hl with hl | hl
  · obtain ⟨e, c, hc, rfl⟩ := Directive.mem_annotate.mp hl
    rw [Directive.ofLine?_line] at heq
    obtain ⟨rfl, -⟩ := Prod.mk.inj (Option.some.inj heq)
    rw [hd] at hc
    exact absurd hc List.not_mem_nil
  · rw [ofLine?_of_mem_code hl] at heq
    cases heq

/-- The first block is that of the record, and the others have no directives. -/
theorem marked_comments_code (x : Record) :
    ∃ rest, CommentBlock.marked "// " x.marker (x.comments ++ x.code) =
      ⟨x.block, 0, x.comments.length - 1⟩ :: rest ∧ ∀ b ∈ rest, ∀ d, b.table.first? d = none := by
  obtain ⟨l, hl, hmark⟩ := x.exists_marked
  obtain ⟨k, hk, rfl⟩ := List.getElem_of_mem hl
  have hmarked : IsMarkedAt x.marker (x.comments ++ x.code) k :=
    (HoldsAt.append_left hk).mpr ((HoldsAt.iff_getElem hk).mpr hmark)
  obtain ⟨rest, hblocks, hrest⟩ :=
    CommentBlock.marked_eq_cons x.isRun_comments (show k ≤ x.comments.length - 1 by omega) hmarked
  rw [show x.comments.length - 1 + 1 = x.comments.length by omega, x.bodies_comments] at hblocks
  refine ⟨rest, hblocks, fun b hb d => ?_⟩
  refine DirectiveTable.first?_eq_none_of_forall fun l hl a heq => ?_
  -- the block begins below the comments, so that its lines are code as it stands
  obtain ⟨i, c, hi, hc, rfl⟩ :=
    CommentBlock.mem_lines_of_mem_marked (hblocks ▸ List.mem_cons_of_mem _ hb) hl
  have hlast := hrest b hb
  rw [List.getElem?_append_right (by omega)] at hc
  have hcode := List.mem_of_getElem? hc
  rw [uncomment_of_code (isCommentLine_of_mem_code hcode), ofLine?_of_mem_code hcode] at heq
  cases heq

/-! ## The records of a record -/

def route? : Record → Option Route
  | .route r => some r
  | .model _ _ => none

def model? : Record → Option Model
  | .route _ => none
  | .model m _ => some m

/-- The record read from another place. -/
def placedAt (place : Place) : Record → Record
  | .route r => .route { r with place := place }
  | .model m declared => .model { m with place := place } declared

variable {file : Text}

/-- Without the directive of its kind a record has no records of that kind. -/
theorem records_eq_nil {α : Type} {marker : Text}
    {read : DirectiveTable → Place → Except GrammarError α} (hd : x.arguments d = [])
    (hread : ∀ table place, table.first? d = none → (read table place).toOption = none) :
    Extraction.records file read
      (CommentBlock.marked "// " marker (x.comments ++ x.code)) = [] := by
  rw [Extraction.records, List.filterMap_eq_nil_iff]
  exact fun b hb => hread _ _ (first?_of_mem_marked hb hd)

/-- Only the first block of a record makes a record of its kind. -/
theorem records_marker {α : Type} {read : DirectiveTable → Place → Except GrammarError α}
    (hread : ∀ table place, table.first? d = none → (read table place).toOption = none) :
    Extraction.records file read (CommentBlock.marked "// " x.marker (x.comments ++ x.code)) =
      (read (.ofLines x.block) ⟨file, x.comments.length⟩).toOption.toList := by
  obtain ⟨rest, hblocks, hrest⟩ := x.marked_comments_code
  obtain ⟨l, hl, -⟩ := x.exists_marked
  have hplace : (⟨x.block, 0, x.comments.length - 1⟩ : CommentBlock).place file =
      ⟨file, x.comments.length⟩ := by
    have hpos := List.length_pos_of_mem hl
    simp only [CommentBlock.place, CommentBlock.nextLine, Place.mk.injEq, true_and]
    omega
  have hnone : rest.filterMap (fun b => (read b.table (b.place file)).toOption) = [] := by
    rw [List.filterMap_eq_nil_iff]
    exact fun b hb => hread _ _ (hrest b hb d)
  rw [hblocks, Extraction.records, List.filterMap_cons, hnone, hplace]
  rfl

/-- **The routes of a written record.** -/
theorem routes_comments_code (h : x.WellFormed) :
    Extraction.routes {} ⟨file, x.comments ++ x.code⟩ =
      (x.placedAt ⟨file, x.comments.length⟩).route?.toList := by
  have hread : ∀ table place, table.first? .route = none →
      (Route.parse table place).toOption = none :=
    fun table place hnone => Route.toOption_parse_of_first? hnone place
  cases x with
  | route r =>
    refine (records_marker (x := .route r) hread).trans ?_
    rw [block, arguments, Route.parse_annotate h]
    rfl
  | model m declared => exact records_eq_nil (x := .model m declared) (d := .route) rfl hread

end Record

/-! ## Declarations -/

/-- A word followed by a space begins with two slashes only if the word does. -/
theorem startsWith_slashes {w s : Text} (hne : w ≠ [])
    (h : Text.startsWith ['/', '/'] w = false) : Text.startsWith ['/', '/'] (w ++ ' ' :: s) = false
    := by
  match w, hne with
  | [a], _ => simp [Text.startsWith, List.isPrefixOf]
  | a :: b :: w, _ => simpa [Text.startsWith, List.isPrefixOf] using h

theorem BodyLine.of_field {f : ModelField} (h : f.WellFormed) :
    BodyLine.of ⟨"type ", "// "⟩ ('\t' :: (f.name ++ ' ' :: f.type.token)) = .field f := by
  have htoken := FieldType.isWord_token h.type
  have htab : Text.isBlank '\t' = true := by decide
  have hcomment : BodyLine.of.isComment ⟨"type ", "// "⟩ (f.name ++ ' ' :: f.type.token) = false :=
    startsWith_slashes h.name.1 h.comment
  have hwords := Text.words_pair h.name htoken
  have htext := Text.isText_pair h.name htoken
  have hempty : (f.name ++ ' ' :: f.type.token).isEmpty = false := by simp
  generalize f.name ++ ' ' :: f.type.token = s at hcomment hwords htext hempty ⊢
  have hkeyword : Text.startsWith "type " s = false := by
    rw [← Bool.not_eq_true]
    intro hstart
    have hfirst := Text.head?_words_of_startsWith (w := "type") (by decide) hstart
    rw [hwords] at hfirst
    exact h.keyword (Option.some.inj hfirst)
  have hclosing : s ≠ ['}'] := by
    rintro rfl
    exact absurd hwords (by simp [show Text.words ['}'] = [['}']] from rfl])
  rw [BodyLine.of]
  simp only [Text.trim_cons_blank htab, Text.trimStart_cons_blank htab, htext.trim_eq,
    htext.trimStart_eq, hempty, hkeyword, hcomment, hwords, if_neg hclosing,
    FieldType.ofToken_token h.type, Bool.false_eq_true, if_false]

theorem BodyLine.of_declaration (rest : Text) :
    BodyLine.of ⟨"type ", "// "⟩ ("type ".toList ++ rest) = .nothing := by
  have hstart : Text.startsWith "type " (Text.trimStart ("type ".toList ++ rest)) = true :=
    Text.startsWith_iff.mpr ⟨rest, rfl⟩
  rw [BodyLine.of]
  simp only [hstart, if_true, ite_self]

theorem Record.body_model {m : Model} {declared : Text} (h : m.WellFormed) :
    Model.body ⟨"type ", "// "⟩ ((model m declared).comments ++ (model m declared).code)
      (model m declared).comments.length = .nothing :: m.fields.map .field := by
  have hdeclared : BodyLine.of ⟨"type ", "// "⟩
      ("type ".toList ++ declared ++ " struct \x7b".toList) = .nothing := by
    rw [List.append_assoc]
    exact BodyLine.of_declaration _
  have hfields : (m.fields.map fun f => '\t' :: (f.name ++ ' ' :: f.type.token)).map
      (BodyLine.of ⟨"type ", "// "⟩) = m.fields.map .field := by
    rw [List.map_map]
    exact List.map_congr_left fun f hf => BodyLine.of_field (h.fields f hf)
  rw [Model.body, List.drop_left, code, List.map_cons, hdeclared, hfields]
  refine List.takeWhile_eq_self_iff.mpr fun l hl => ?_
  rcases List.mem_cons.mp hl with rfl | hl
  · rfl
  · obtain ⟨f, -, rfl⟩ := List.mem_map.mp hl
    rfl

/-- **The models of a written record.** -/
theorem Record.models_comments_code {x : Record} {file : Text} (h : x.WellFormed) :
    Extraction.models {} ⟨file, x.comments ++ x.code⟩ =
      (x.placedAt ⟨file, x.comments.length⟩).model?.toList := by
  have hread : ∀ table place, table.first? .model = none → (Model.parse
      ({} : Config).declarationStyle (x.comments ++ x.code) table place).toOption = none :=
    fun table place hnone => Model.toOption_parse_of_first? hnone _ _ place
  cases x with
  | route r => exact records_eq_nil (x := .route r) (d := .model) rfl hread
  | model m declared =>
    refine (records_marker (x := .model m declared) hread).trans ?_
    rw [Model.parse, block, arguments, Model.nameOf_annotate h.1]
    have hstyle : ({} : Config).declarationStyle = ⟨"type ", "// "⟩ := rfl
    have hfields : (m.fields.map BodyLine.field).filterMap BodyLine.field? = m.fields := by
      simp [List.filterMap_map, Function.comp_def, BodyLine.field?]
    simp only [DirectiveTable.description_annotate m.arguments h.1.description rfl, hstyle,
      body_model h.1, List.filterMap_cons, BodyLine.field?, hfields]
    rfl

end ApiAnnotations

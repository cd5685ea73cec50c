import ApiAnnotations.Proofs.RecordLines

/-! # Extraction undoes rendering

* `isLine_of_mem_lines` : no line of a record that can be written contains the end of a line.
* `placed file n xs` : the records with the places they have in a text that begins at line `n`.
* `ofSource_render` : the records of a rendered text are the rendered records, in order. -/

namespace ApiAnnotations

open Text (IsLine)

namespace Record

/-! ## Lines -/

theorem isLine_of_mem_routeArguments {r : Route} (h : r.WellFormed) {d : Directive} {a : Text}
    (ha : a ∈ r.arguments d) : IsLine a := by
  cases d with
  | description => exact (h.description a (by simpa [Route.arguments] using ha)).2.isLine
  | route =>
    obtain rfl := List.mem_singleton.mp ha
    refine Text.isLine_joinWith (by decide) ?_
    simpa using ⟨h.operationId.isText.isLine, h.verb.isText.isLine, h.path.isText.isLine⟩
  | model => exact absurd ha List.not_mem_nil
  | param =>
    obtain ⟨p, hp, rfl⟩ := List.mem_map.mp ha
    have hp := h.params p hp
    refine Text.isLine_joinWith (by decide) ?_
    simpa using ⟨hp.name.isText.isLine, (ParamType.isWord_token hp.type).isText.isLine,
      (Modifier.isWord_token _).isText.isLine, (Modifier.isWord_token _).isText.isLine,
      hp.description.isLine⟩
  | response =>
    obtain ⟨s, hs, rfl⟩ := List.mem_map.mp ha
    have hs := h.responses s hs
    refine Text.isLine_joinWith (by decide) ?_
    simpa using ⟨(Text.Decimal.isWord_ofNat _).isText.isLine,
      (SchemaRef.isWord_token hs.schema).isText.isLine, hs.description.isLine⟩
  | tag =>
    have htags : IsLine (Text.joinWith [','] r.tags) :=
      Text.isLine_joinWith (by decide) fun t ht => (h.tags t ht).2.1.isLine
    simp only [Route.arguments] at ha
    split at ha
    · exact absurd ha List.not_mem_nil
    · obtain rfl := List.mem_singleton.mp ha
      exact htags

theorem isLine_of_mem_modelArguments {m : Model} (h : m.WellFormed) {d : Directive} {a : Text}
    (ha : a ∈ m.arguments d) : IsLine a := by
  cases d with
  | description => exact (h.description a (by simpa [Model.arguments] using ha)).2.isLine
  | model =>
    obtain rfl := List.mem_singleton.mp ha
    exact h.name.isText.isLine
  | route | param | response | tag => exact absurd ha List.not_mem_nil

theorem isLine_of_mem_lines {x : Record} (h : x.WellFormed) {l : Text} (hl : l ∈ x.lines) :
    IsLine l := by
  have harguments : ∀ d, ∀ a ∈ x.arguments d, IsLine a := by
    cases x with
    | route r => exact fun d a ha => isLine_of_mem_routeArguments h ha
    | model m declared => exact fun d a ha => isLine_of_mem_modelArguments h.1 ha
  have hcomments : ∀ l ∈ x.comments, IsLine l := by
    intro l hl
    obtain ⟨b, hb, rfl⟩ := List.mem_map.mp hl
    obtain ⟨d, a, ha, rfl⟩ := Directive.mem_annotate.mp hb
    have hname : IsLine ("// @".toList ++ d.name ++ [' ']) := by cases d <;> decide
    have hline := hname.append (harguments d a ha)
    simpa [Directive.line] using hline
  have hcode : ∀ l ∈ x.code, IsLine l := by
    cases x with
    | route r => exact fun l hl => absurd hl List.not_mem_nil
    | model m declared =>
      intro l hl
      rcases List.mem_cons.mp hl with rfl | hl
      · have htype : IsLine "type ".toList := by decide
        exact (htype.append h.2).append (by decide)
      · obtain ⟨f, hf, rfl⟩ := List.mem_map.mp hl
        have hf := h.1.fields f hf
        have htab : IsLine ['\t'] := by decide
        have hspace : IsLine [' '] := by decide
        have hline := (htab.append hf.name.isText.isLine).append
          (hspace.append (FieldType.isWord_token hf.type).isText.isLine)
        simpa using hline
  rcases List.mem_append.mp hl with hl | hl
  · rcases List.mem_append.mp hl with hl | hl
    · exact hcomments l hl
    · exact hcode l hl
  · obtain rfl := List.mem_singleton.mp hl
    decide

/-! ## Places -/

/-- The records of a text that begins at line `n` of a file. Each is placed at the line after its
comments, and begins after the lines of the records before it. -/
def placed (file : Text) (n : Nat) : List Record → List Record
  | [] => []
  | x :: xs => x.placedAt ⟨file, n + x.comments.length⟩ :: placed file (n + x.lines.length) xs

theorem length_lines (x : Record) : x.lines.length = (x.comments ++ x.code).length + 1 := by
  rw [lines, List.length_append, List.length_singleton]

/-- Records of one kind that are read from each written record, and moved down behind it, are those
of the whole list at their places. -/
theorem map_flatMap_lines {α : Type} {file : Text} {xs : List Record} (read : List Text → List α)
    (down : Nat → α → α) (kind? : Record → Option α) (hnil : read [] = [])
    (hdown : ∀ m n a, down n (down m a) = down (n + m) a)
    (hkind : ∀ x place n, (kind? (placedAt place x)).map (down n) =
      kind? (placedAt (place.down n) x))
    (hcons : ∀ x ∈ xs, ∀ ls, read ((x.comments ++ x.code) ++ ['}'] :: ls) =
      (kind? (x.placedAt ⟨file, x.comments.length⟩)).toList ++ (read ls).map (down x.lines.length))
    (n : Nat) :
    (read (xs.flatMap lines)).map (down n) = (placed file n xs).filterMap kind? := by
  induction xs generalizing n with
  | nil => simp [hnil, placed]
  | cons x xs ih =>
    have hlines : (x :: xs).flatMap lines =
        (x.comments ++ x.code) ++ ['}'] :: xs.flatMap lines := by simp [lines]
    have hmoved : down n ∘ down x.lines.length = down (n + x.lines.length) := by
      funext a
      exact hdown _ _ a
    have hfirst : (kind? (x.placedAt ⟨file, x.comments.length⟩)).toList.map (down n) =
        (kind? (x.placedAt ⟨file, n + x.comments.length⟩)).toList := by
      rw [← Option.toList_map, hkind]
      rfl
    rw [hlines, hcons x (List.mem_cons_self ..), List.map_append, List.map_map, hmoved, hfirst,
      ih fun y hy => hcons y (List.mem_cons_of_mem _ hy), placed, List.filterMap_cons]
    cases kind? (x.placedAt ⟨file, n + x.comments.length⟩) <;> rfl

variable {xs : List Record}

theorem routes_flatMap_lines (file : Text) (h : ∀ x ∈ xs, x.WellFormed) :
    Extraction.routes {} ⟨file, xs.flatMap lines⟩ = (placed file 0 xs).filterMap route? := by
  have hcons : ∀ x ∈ xs, ∀ ls,
      Extraction.routes {} ⟨file, (x.comments ++ x.code) ++ ['}'] :: ls⟩ =
        (x.placedAt ⟨file, x.comments.length⟩).route?.toList ++
          (Extraction.routes {} ⟨file, ls⟩).map (Route.down x.lines.length) := by
    intro x hx ls
    rw [Extraction.routes_append_code rfl rfl, routes_comments_code (h x hx), length_lines]
  have hmoved := map_flatMap_lines (fun ls => Extraction.routes {} ⟨file, ls⟩) Route.down route? rfl
    Route.down_down (fun x place n => by cases x <;> rfl) hcons 0
  rwa [Route.down_zero, List.map_id] at hmoved

theorem models_flatMap_lines (file : Text) (h : ∀ x ∈ xs, x.WellFormed) :
    Extraction.models {} ⟨file, xs.flatMap lines⟩ = (placed file 0 xs).filterMap model? := by
  have hcons : ∀ x ∈ xs, ∀ ls,
      Extraction.models {} ⟨file, (x.comments ++ x.code) ++ ['}'] :: ls⟩ =
        (x.placedAt ⟨file, x.comments.length⟩).model?.toList ++
          (Extraction.models {} ⟨file, ls⟩).map (Model.down x.lines.length) := by
    intro x hx ls
    rw [Extraction.models_append_code rfl rfl rfl, models_comments_code (h x hx), length_lines]
  have hmoved := map_flatMap_lines (fun ls => Extraction.models {} ⟨file, ls⟩) Model.down model? rfl
    Model.down_down (fun x place n => by cases x <;> rfl) hcons 0
  rwa [Model.down_zero, List.map_id] at hmoved

end Record

/-- **Extraction undoes rendering.**  The records of a rendered text are the rendered ones, routes
and models each in their order, with the place after their comments and nothing else changed. -/
theorem ofSource_render (file : Text) (xs : List Record) (h : ∀ x ∈ xs, x.WellFormed) :
    FileRecords.ofSource {} (.ofText file (render xs)) =
      ⟨file, (Record.placed file 0 xs).filterMap Record.route?,
        (Record.placed file 0 xs).filterMap Record.model?⟩ := by
  have hlines : ∀ l ∈ xs.flatMap Record.lines, IsLine l := by
    intro l hl
    obtain ⟨x, hx, hl⟩ := List.mem_flatMap.mp hl
    exact Record.isLine_of_mem_lines (h x hx) hl
  rw [FileRecords.ofSource, SourceFile.ofText, render, Text.lines_unlines hlines,
    Record.routes_flatMap_lines file h, Record.models_flatMap_lines file h]

/-- Records whose words are themselves markers, directives, modifiers, comments and braces. -/
def misleadingRecords : List Record :=
  [.route ⟨"@route", "GET", "/b", some "see @model B // @route A GET /a",
      [⟨"in:path", .primitive .integer, .query, false, []⟩,
        ⟨"required", .reference "Order", .body, true, "optional in:form @tag a,b"⟩],
      [⟨204, none, []⟩, ⟨200, some ⟨"empty", true⟩, "empty"⟩], ["@tags b", "\x7d"], ⟨[], 0⟩⟩,
    .model ⟨"Order", some "@description @model Other", ⟨[], 0⟩,
      [⟨"@model", .array "Item"⟩, ⟨"\x7d", .object "type"⟩, ⟨"@route", .primitive .boolean⟩]⟩
      "@model T // @route A GET /a",
    .route ⟨"B", "@model", "//", none, [], [], [], ⟨[], 0⟩⟩]

theorem ofSource_render_misleadingRecords :
    (∀ x ∈ misleadingRecords, x.WellFormed) ∧
      FileRecords.ofSource {} (.ofText "a.go" (render misleadingRecords)) =
        ⟨"a.go", (Record.placed "a.go" 0 misleadingRecords).filterMap Record.route?,
          (Record.placed "a.go" 0 misleadingRecords).filterMap Record.model?⟩ ∧
      (FileRecords.ofSource {} (.ofText "a.go" (render misleadingRecords))).routes.map
        (fun r => (r.operationId, r.place.line)) = [("@route".toList, 7), ("B".toList, 16)] := by
  have h : ∀ x ∈ misleadingRecords, x.WellFormed := by decide +kernel
  exact ⟨h, ofSource_render "a.go" misleadingRecords h, by decide +kernel⟩

end ApiAnnotations

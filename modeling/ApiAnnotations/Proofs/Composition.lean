import ApiAnnotations.Assembly
import ApiAnnotations.Proofs.ClosingLine
import Mathlib.Data.List.Basic

/-! # Files put together

A file may be cut at a closing brace: what stands above it and what stands below it are read as if
they were files of their own.

* `assemble_congr` : a document does not depend on the places of the records it is made of.
* `ofSource_append_closing` : the records of a file put together from two parts are those of the
  parts, and the document of the file is that of the parts. -/

namespace ApiAnnotations

/-! ## Records without their places -/

def Route.unplaced (r : Route) : Route := { r with place := ⟨[], 0⟩ }

def Model.unplaced (m : Model) : Model := { m with place := ⟨[], 0⟩ }

@[simp] theorem Route.unplaced_down (n : Nat) (r : Route) : (r.down n).unplaced = r.unplaced := rfl

@[simp] theorem Model.unplaced_down (n : Nat) (m : Model) : (m.down n).unplaced = m.unplaced := rfl

namespace Assembly

theorem definitions_map_unplaced (ms : List Model) :
    (OrderedMap.ofList ((ms.map Model.unplaced).map fun m => (m.name, Definition.ofModel m))) =
      .ofList (ms.map fun m => (m.name, .ofModel m)) := by
  rw [List.map_map]
  rfl

theorem paths_map_unplaced (known : Text → Bool) (rs : List Route) :
    paths known (rs.map Route.unplaced) = paths known rs := by
  unfold paths
  rw [List.foldl_map]
  rfl

theorem tags_map_unplaced (declared : List TagInfo) (rs : List Route) :
    tags declared (rs.map Route.unplaced) = tags declared rs := by
  unfold tags
  rw [List.flatMap_map]
  rfl

end Assembly

/-- **Documents and places.**  Records that differ in their places alone make the same document. -/
theorem Document.assemble_congr (m : Metadata) {files files' : List FileRecords}
    (hroutes : (Assembly.routes files).map Route.unplaced =
      (Assembly.routes files').map Route.unplaced)
    (hmodels : (Assembly.models files).map Model.unplaced =
      (Assembly.models files').map Model.unplaced) :
    assemble m files = assemble m files' := by
  have hdefinitions : Assembly.definitions files = Assembly.definitions files' := by
    unfold Assembly.definitions
    rw [← Assembly.definitions_map_unplaced, hmodels, Assembly.definitions_map_unplaced]
  have hpaths : ∀ known, Assembly.paths known (Assembly.routes files) =
      Assembly.paths known (Assembly.routes files') := by
    intro known
    rw [← Assembly.paths_map_unplaced, hroutes, Assembly.paths_map_unplaced]
  have htags : Assembly.tags m.tags (Assembly.routes files) =
      Assembly.tags m.tags (Assembly.routes files') := by
    rw [← Assembly.tags_map_unplaced, hroutes, Assembly.tags_map_unplaced]
  simp only [assemble, hdefinitions, hpaths, htags]

namespace Extraction

/-- A reader that takes nothing but the line of the record from its place makes the same records
in any file, except for their places. -/
theorem map_records_file {α : Type} {read : DirectiveTable → Place → Except GrammarError α}
    {unplaced : α → α} (bs : List CommentBlock) (file file' : Text)
    (h : ∀ table line, (read table ⟨file, line⟩).map unplaced =
      (read table ⟨file', line⟩).map unplaced) :
    (records file read bs).map unplaced = (records file' read bs).map unplaced := by
  have hmap : ∀ x : Except GrammarError α,
      x.toOption.map unplaced = (x.map unplaced).toOption := by
    intro x
    cases x with
    | error e => rfl
    | ok a => rfl
  unfold records
  rw [List.map_filterMap, List.map_filterMap]
  apply List.filterMap_congr
  intro b _
  rw [hmap, hmap, CommentBlock.place, CommentBlock.place, h]

theorem routes_file (config : Config) (file file' : Text) (lines : List Text) :
    (routes config ⟨file, lines⟩).map Route.unplaced =
      (routes config ⟨file', lines⟩).map Route.unplaced := by
  refine map_records_file _ file file' ?_
  intro table line
  unfold Route.parse
  cases Route.signature table with
  | error e => rfl
  | ok s => rfl

theorem models_file (config : Config) (file file' : Text) (lines : List Text) :
    (models config ⟨file, lines⟩).map Model.unplaced =
      (models config ⟨file', lines⟩).map Model.unplaced := by
  refine map_records_file _ file file' ?_
  intro table line
  unfold Model.parse
  cases Model.nameOf table with
  | error e => rfl
  | ok name => rfl

end Extraction

theorem BodyLine.of_closingBrace {style : DeclarationStyle}
    (h : Text.startsWith style.keyword ['}'] = false) : of style ['}'] = .closing := by
  have htrim : Text.trim ['}'] = ['}'] := by decide
  have hstart : Text.trimStart ['}'] = ['}'] := by decide
  simp [of, htrim, hstart, h]

/-- **Files cut at a closing brace.**  Let a closing brace be neither a comment line nor marked nor
the beginning of a declaration. Then the records of a file with such a line are those of the lines
above it, followed by those of the lines below it with their places moved down; and the document
of the file is that of two files, one with each part. -/
theorem ofSource_append_closing (config : Config)
    (hcomment : isCommentLine config.commentStart ['}'] = false)
    (hroute : Text.contains config.routeMarker ['}'] = false)
    (hmodel : Text.contains config.modelMarker ['}'] = false)
    (hkeyword : Text.startsWith config.keyword ['}'] = false) (A B : List Text) :
    (∀ file, (FileRecords.ofSource config ⟨file, A ++ [['}']] ++ B⟩).routes =
      (FileRecords.ofSource config ⟨file, A⟩).routes ++
        (FileRecords.ofSource config ⟨file, B⟩).routes.map (Route.down (A.length + 1))) ∧
    (∀ file, (FileRecords.ofSource config ⟨file, A ++ [['}']] ++ B⟩).models =
      (FileRecords.ofSource config ⟨file, A⟩).models ++
        (FileRecords.ofSource config ⟨file, B⟩).models.map (Model.down (A.length + 1))) ∧
    ∀ (m : Metadata) (file fileA fileB : Text),
      Document.assemble m [.ofSource config ⟨file, A ++ [['}']] ++ B⟩] =
        Document.assemble m [.ofSource config ⟨fileA, A⟩, .ofSource config ⟨fileB, B⟩] := by
  have hjoin : A ++ [['}']] ++ B = A ++ ['}'] :: B := by simp
  have hclose : BodyLine.of config.declarationStyle ['}'] = .closing :=
    BodyLine.of_closingBrace hkeyword
  have hroutes : ∀ file, Extraction.routes config ⟨file, A ++ [['}']] ++ B⟩ =
      Extraction.routes config ⟨file, A⟩ ++
        (Extraction.routes config ⟨file, B⟩).map (Route.down (A.length + 1)) := by
    intro file
    rw [hjoin]
    exact Extraction.routes_append_code hcomment hroute
  have hmodels : ∀ file, Extraction.models config ⟨file, A ++ [['}']] ++ B⟩ =
      Extraction.models config ⟨file, A⟩ ++
        (Extraction.models config ⟨file, B⟩).map (Model.down (A.length + 1)) := by
    intro file
    rw [hjoin]
    exact Extraction.models_append_code hcomment hmodel hclose
  refine ⟨hroutes, hmodels, ?_⟩
  intro m file fileA fileB
  apply Document.assemble_congr
  · simp only [Assembly.routes, FileRecords.ofSource, List.flatMap_cons, List.flatMap_nil,
      List.append_nil]
    rw [hroutes, List.map_append, List.map_append, List.map_map,
      Extraction.routes_file config file fileA, ← Extraction.routes_file config file fileB]
    simp only [Function.comp_def, Route.unplaced_down]
  · simp only [Assembly.models, FileRecords.ofSource, List.flatMap_cons, List.flatMap_nil,
      List.append_nil]
    rw [hmodels, List.map_append, List.map_append, List.map_map,
      Extraction.models_file config file fileA, ← Extraction.models_file config file fileB]
    simp only [Function.comp_def, Model.unplaced_down]

/-- A declaration without its closing brace, and a route at the end. -/
def openDeclaration : List Text :=
  ["// @model Order", "type Order struct \x7b", "\tId int", "// @route Get GET /orders/:id"]

/-- Comments and a field at the top, a model and an operation of the same names as before, and the
last line a comment. -/
def sameNames : List Text :=
  ["// @param id int in:path", "\tCount int", "// @model Order", "type Order struct \x7b",
    "\tName string", "\x7d", "// @route Set get /orders/\x7bid\x7d"]

theorem ofSource_append_closing_sameNames :
    (isCommentLine ({} : Config).commentStart ['}'] = false ∧
      Text.contains ({} : Config).routeMarker ['}'] = false ∧
      Text.contains ({} : Config).modelMarker ['}'] = false ∧
      Text.startsWith ({} : Config).keyword ['}'] = false) ∧
    (FileRecords.ofSource {} ⟨"o.go", openDeclaration ++ [['}']] ++ sameNames⟩).routes.map
      (fun r => (r.operationId, r.place.line)) = [("Get".toList, 4), ("Set".toList, 12)] ∧
    (FileRecords.ofSource {} ⟨"o.go", openDeclaration ++ [['}']] ++ sameNames⟩).models =
      (FileRecords.ofSource {} ⟨"o.go", openDeclaration⟩).models ++
        (FileRecords.ofSource {} ⟨"o.go", sameNames⟩).models.map (Model.down 5) ∧
    Document.assemble .default
        [.ofSource {} ⟨"o.go", openDeclaration ++ [['}']] ++ sameNames⟩] =
      Document.assemble .default
        [.ofSource {} ⟨"a.go", openDeclaration⟩, .ofSource {} ⟨"b.go", sameNames⟩] := by
  have hcomment : isCommentLine ({} : Config).commentStart ['}'] = false := by decide
  have hroute : Text.contains ({} : Config).routeMarker ['}'] = false := by decide
  have hmodel : Text.contains ({} : Config).modelMarker ['}'] = false := by decide
  have hkeyword : Text.startsWith ({} : Config).keyword ['}'] = false := by decide
  obtain ⟨-, hmodels, hdocument⟩ := ofSource_append_closing {} hcomment hroute hmodel hkeyword
    openDeclaration sameNames
  exact ⟨⟨hcomment, hroute, hmodel, hkeyword⟩, by decide +kernel, hmodels "o.go",
    hdocument .default "o.go" "a.go" "b.go"⟩

end ApiAnnotations

import ApiAnnotations.CommentBlock
import ApiAnnotations.Model
import ApiAnnotations.Route
import ApiAnnotations.SourceFile

/-! # Extraction

The records of a file are read from the comment blocks around the lines containing a marker: routes
from one marker, models from another. A block that makes no record is skipped with a warning.

* `FileRecords.ofSource` are the records of a file.
* `FileRecords.events` is what reading them reports. -/

namespace ApiAnnotations

structure Config where
  commentStart : Text := "// "
  keyword : Text := "type "
  extensions : List Text := ["go".toList]
  routeMarker : Text := "@route"
  modelMarker : Text := "@model "
deriving DecidableEq

def Config.declarationStyle (config : Config) : DeclarationStyle :=
  ⟨config.keyword, config.commentStart⟩

/-- The records of one source file, in order. -/
structure FileRecords where
  sourceFile : Text
  routes : List Route
  models : List Model
deriving DecidableEq

namespace CommentBlock

def table (block : CommentBlock) : DirectiveTable := .ofLines block.lines

def place (block : CommentBlock) (file : Text) : Place := ⟨file, block.nextLine⟩

end CommentBlock

namespace Extraction

def blocks (config : Config) (source : SourceFile) (marker : Text) : List CommentBlock :=
  CommentBlock.marked config.commentStart marker source.lines

def records {α : Type} (file : Text) (read : DirectiveTable → Place → Except GrammarError α)
    (bs : List CommentBlock) : List α :=
  bs.filterMap (fun b => (read b.table (b.place file)).toOption)

/-- What reading one block reports; `inner` are the events about parts of its record. -/
def blockEvents {α : Type} (file : Text) (kind : RecordKind)
    (read : DirectiveTable → Place → Except GrammarError α)
    (inner : DirectiveTable → Place → List Event) (b : CommentBlock) : List Event :=
  .block (b.place file) kind b.table.entries.keys ::
    inner b.table (b.place file) ++
      match read b.table (b.place file) with
      | .ok _ => []
      | .error e => [.skippedBlock (b.place file) kind e]

/-- What reading the blocks of a file reports. A file without lines is skipped. -/
def events {α : Type} (source : SourceFile) (kind : RecordKind)
    (read : DirectiveTable → Place → Except GrammarError α)
    (inner : DirectiveTable → Place → List Event) (bs : List CommentBlock) : List Event :=
  if source.lines.isEmpty then [.skippedFile source.path kind .noLines]
  else bs.flatMap (blockEvents source.path kind read inner)

def routes (config : Config) (source : SourceFile) : List Route :=
  records source.path Route.parse (blocks config source config.routeMarker)

def models (config : Config) (source : SourceFile) : List Model :=
  records source.path (Model.parse config.declarationStyle source.lines)
    (blocks config source config.modelMarker)

def routeEvents (config : Config) (source : SourceFile) : List Event :=
  events source .route Route.parse Route.dropped (blocks config source config.routeMarker)

def modelEvents (config : Config) (source : SourceFile) : List Event :=
  events source .model (Model.parse config.declarationStyle source.lines)
    (Model.passedOver config.declarationStyle source.lines)
    (blocks config source config.modelMarker)

end Extraction

namespace FileRecords

def ofSource (config : Config) (source : SourceFile) : FileRecords where
  sourceFile := source.path
  routes := Extraction.routes config source
  models := Extraction.models config source

/-- What reading the records of a file reports: first about routes, then about models. -/
def events (config : Config) (source : SourceFile) : List Event :=
  Extraction.routeEvents config source ++ Extraction.modelEvents config source

end FileRecords

end ApiAnnotations

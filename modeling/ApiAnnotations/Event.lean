import ApiAnnotations.Directive
import ApiAnnotations.Format
import ApiAnnotations.GrammarError
import ApiAnnotations.Text.Decimal

/-! # Events

What a run reports besides its result. An event says what happened; its level and its wording follow
from that.

* `Event.level` and `Event.message` give them.
* `Event.select` keeps the events of a level and of the more severe ones. -/

namespace ApiAnnotations

/-- A line of a source file; lines are counted from zero. -/
structure Place where
  file : Text
  line : Nat
deriving DecidableEq

/-- File and line as shown to a reader, who counts lines from one. -/
def Place.text (place : Place) : Text :=
  place.file ++ [':'] ++ Text.Decimal.ofNat (place.line + 1)

inductive RecordKind
  | route
  | model
deriving DecidableEq

def RecordKind.name : RecordKind → Text
  | .route => "route"
  | .model => "model"

inductive Level
  | debug
  | info
  | warn
deriving DecidableEq

namespace Level

def rank : Level → Nat
  | .debug => 0
  | .info => 1
  | .warn => 2

def name : Level → Text
  | .debug => "DEBUG"
  | .info => "INFO"
  | .warn => "WARN"

def ofName? (s : Text) : Option Level :=
  if s = "debug".toList then some .debug
  else if s = "info".toList then some .info
  else if s = "warn".toList then some .warn
  else none

end Level

inductive Event
  | readingFile (path : Text)
  | readingFiles (count : Nat)
  | replacedBytes (path : Text)
  | scanned (root : Text) (count : Nat)
  | noMetadata (root : Text)
  | loadingMetadata (path : Text)
  /-- A file without lines has no records of a kind. -/
  | skippedFile (path : Text) (kind : RecordKind) (error : GrammarError)
  | block (place : Place) (kind : RecordKind) (directives : List Directive)
  | skippedBlock (place : Place) (kind : RecordKind) (error : GrammarError)
  | droppedParam (place : Place) (operation argument : Text) (error : GrammarError)
  | droppedResponse (place : Place) (operation argument : Text) (error : GrammarError)
  | ignoredTags (place : Place) (operation : Text) (error : GrammarError)
  | untypedLine (place : Place) (model line : Text)
  | replacedModel (name : Text) (place previous : Place)
  /-- An operation takes the place of one with the same path and verb. -/
  | replacedOperation (verb path : Text) (place : Place) (previous : Text)
  /-- The type of a parameter is neither primitive nor a model. -/
  | unknownParamType (place : Place) (param operation type : Text)
  | unknownResponseModel (place : Place) (statusCode : Nat) (operation model : Text)
  | assembled (paths definitions : Nat)
  | building (root : Text)
  | foundFiles (files skipped : Nat)
  | extracted (routes models : Nat)
  | serializing (format : Format)
  | writingFile (path : Text)
  | wroteFile (bytes : Nat) (path : Text)
  | started
  /-- The command line was read; `shown` is what it says. -/
  | readArguments (shown : Text)
  | sourceChosen (path : Text)
  | formatChosen (format : Format)
  /-- The output directory was chosen, or standard output. -/
  | outputChosen (path : Option Text)
  | wroteMetadata (path : Text)
  | documentBuilt (paths definitions : Nat)
  /-- The document of the run is being written in a format. -/
  | writingFormat (format : Format)
  | writingDocument (path : Text)
  /-- The program ends without an error. -/
  | completed
deriving DecidableEq

namespace Event

open Text.Decimal (ofNat)

def level : Event → Level
  | .replacedBytes .. | .noMetadata .. | .skippedBlock .. | .droppedParam .. | .droppedResponse ..
  | .ignoredTags .. | .replacedModel .. | .replacedOperation .. | .unknownParamType ..
  | .unknownResponseModel .. => .warn
  | .building .. | .foundFiles .. | .extracted .. | .started | .sourceChosen .. | .formatChosen ..
  | .outputChosen .. | .wroteMetadata .. | .documentBuilt .. | .writingFormat ..
  | .writingDocument .. | .completed => .info
  | .readingFile .. | .readingFiles .. | .scanned .. | .loadingMetadata .. | .skippedFile ..
  | .block .. | .untypedLine .. | .assembled .. | .serializing .. | .writingFile ..
  | .wroteFile .. | .readArguments .. => .debug

/-- Names in double quotes, separated by commas and enclosed in brackets. -/
def quotedNames (names : List Text) : Text :=
  ['['] ++ Text.joinWith [',', ' '] (names.map (fun n => ['"'] ++ n ++ ['"'])) ++ [']']

/-- The parts of a message, one after the other. -/
def sentence (parts : List Text) : Text := parts.flatten

def message : Event → Text
  | .readingFile path => sentence ["Reading file: ", path]
  | .readingFiles count => sentence ["Reading ", ofNat count, " files"]
  | .replacedBytes path => sentence [path, " is not valid UTF-8; invalid bytes were replaced"]
  | .scanned root count => sentence ["Scanned ", root, ": ", ofNat count, " matching files"]
  | .noMetadata root => sentence
      ["No swagger-meta.json found in ", root,
        ", using default document metadata (run with --init to create one)"]
  | .loadingMetadata path => sentence ["Loading document metadata from ", path]
  | .skippedFile path kind error => sentence
      ["Skipping ", path, " for ", kind.name, "s: ", error.message]
  | .block place kind directives => sentence
      [place.text, ": ", kind.name, " block with ", ofNat directives.length, " directives ",
        quotedNames (directives.map Directive.name)]
  | .skippedBlock place kind error => sentence
      [place.text, ": skipping ", kind.name, ": ", error.message]
  | .droppedParam place operation argument error => sentence
      [place.text, ": dropping @param '", argument, "' of ", operation, ": ", error.message]
  | .droppedResponse place operation argument error => sentence
      [place.text, ": dropping @return '", argument, "' of ", operation, ": ", error.message]
  | .ignoredTags place operation error => sentence
      [place.text, ": ignoring @tag of ", operation, ": ", error.message]
  | .untypedLine place model line => sentence
      [place.text, ": skipping line without a field type in model ", model, ": '", line, "'"]
  | .replacedModel name place previous => sentence
      ["Model ", name, " from ", place.text, " replaces the definition from ", previous.text]
  | .replacedOperation verb path place previous => sentence
      [verb, " ", path, " from ", place.text, " replaces operation ", previous]
  | .unknownParamType place param operation type => sentence
      [place.text, ": param ", param, " of ", operation, " has unknown type ", type]
  | .unknownResponseModel place statusCode operation model => sentence
      [place.text, ": response ", ofNat statusCode, " of ", operation,
        " references unknown model ", model]
  | .assembled paths definitions => sentence
      ["Assembled document with ", ofNat paths, " paths and ", ofNat definitions, " definitions"]
  | .building root => sentence ["Building swagger document from path ", root]
  | .foundFiles files skipped => sentence
      ["Found ", ofNat files, " source files (", ofNat skipped, " entries skipped with warnings)"]
  | .extracted routes models => sentence
      ["Extracted ", ofNat routes, " routes and ", ofNat models, " models"]
  | .serializing format => sentence ["Serializing swagger document to ", format.name]
  | .writingFile path => sentence ["Writing content to file: ", path]
  | .wroteFile bytes path => sentence ["Successfully wrote ", ofNat bytes, " bytes to ", path]
  | .started => "Swagger generator starting..."
  | .readArguments shown => sentence ["Parsed arguments: ", shown]
  | .sourceChosen path => sentence ["Source directory: ", path]
  | .formatChosen format => sentence ["Output format: ", format.title]
  | .outputChosen none => "Output: stdout"
  | .outputChosen (some path) => sentence ["Output directory: ", path]
  | .wroteMetadata path => sentence ["Swagger meta file generated at path ", path]
  | .documentBuilt paths definitions => sentence
      ["Swagger document built: ", ofNat paths, " paths, ", ofNat definitions, " definitions"]
  | .writingFormat format => sentence ["Serializing to ", format.title, " format..."]
  | .writingDocument path => sentence ["Writing swagger definition to ", path]
  | .completed => "Swagger generation completed successfully"

/-- The events at least as severe as a level. -/
def select (least : Level) (events : List Event) : List Event :=
  events.filter (fun e => least.rank ≤ e.level.rank)

def logLine (e : Event) : Text := e.level.name ++ [' '] ++ e.message

end Event

end ApiAnnotations

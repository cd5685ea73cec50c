import ApiAnnotations.Assembly
import ApiAnnotations.Host
import ApiAnnotations.Scan

/-! # Building documents

A document is built from a directory: its source files are listed and read, their records extracted
and assembled with the metadata of the directory.

* `Build.scan`, `Build.readSources` and `Build.loadMetadata` read from the host.
* `Build.document` is the document of a directory, `Build.writeFile` writes a text. -/

namespace ApiAnnotations.Build

variable {m : Type → Type} [Monad m] [Host m]

/-! ## Reading -/

def readSource (path : Text) : Run m SourceFile := do
  Run.report (.readingFile path)
  let bytes ← Run.require (.unreadableFile path) (Host.readFile path)
  Run.reportAll (SourceFile.bytesEvents path bytes)
  pure (.ofBytes path bytes)

def readEach : List Text → Run m (List SourceFile)
  | [] => pure []
  | path :: paths => do
    let source ← readSource path
    let sources ← readEach paths
    pure (source :: sources)

/-- Reads source files; one that cannot be read is a failure of all. -/
def readSources (paths : List Text) : Run m (List SourceFile) := do
  Run.report (.readingFiles paths.length)
  readEach paths

def scan (root : Text) (extensions : List Text) : Run m (List Text) := do
  let tree ← Run.require (.unreadableDirectory root) (Host.readDirectory root)
  let paths := (Scan.sources extensions tree).map (Scan.pathBelow root)
  Run.report (.scanned root paths.length)
  pure paths

/-! ## Metadata -/

def metadataName : Text := "swagger-meta.json"

def metadataPath (root : Text) : Text := Path.join root metadataName

def loadMetadataFile (path : Text) : Run m Metadata := do
  Run.report (.loadingMetadata path)
  let bytes ← Run.require (.unreadableMetadata path) (Host.readFile path)
  match Text.decode? bytes with
  | none => throw (.unreadableMetadata path)
  | some s =>
    match Metadata.ofJson s with
    | .error fault => throw (.invalidMetadata path fault)
    | .ok metadata => pure metadata

/-- The metadata of a directory: the default ones if it has no metadata file. -/
def loadMetadata (root : Text) : Run m Metadata := do
  if ← ExceptT.lift (Host.pathExists (metadataPath root)) then
    loadMetadataFile (metadataPath root)
  else
    Run.report (.noMetadata root)
    pure .default

/-- Writes placeholder metadata into a directory and returns their path. -/
def writeScaffold (root : Text) : Run m Text := do
  let path := metadataPath root
  Run.ensure (.unwritableMetadata path) (Host.writeFile path Metadata.scaffold.toJson)
  pure path

/-! ## Documents -/

def documentWith (root : Text) (config : Config) (metadata : Metadata) : Run m Document := do
  Run.report (.building root)
  let paths ← scan root config.extensions
  Run.report (.foundFiles paths.length 0)
  let sources ← readSources paths
  let files := sources.map (FileRecords.ofSource config)
  Run.reportAll (sources.flatMap (FileRecords.events config))
  Run.report (.extracted (Assembly.routes files).length (Assembly.models files).length)
  Run.reportAll (Assembly.events files)
  pure (.assemble metadata files)

def document (root : Text) (config : Config) : Run m Document := do
  let metadata ← loadMetadata root
  documentWith root config metadata

/-! ## Writing -/

def serialize (format : Format) (d : Document) : Run m Text := do
  Run.report (.serializing format)
  match format with
  | .json => pure d.toJson
  | .yaml => pure d.toYaml

/-- Writes a text to a file, whose directory is made if it is missing. -/
def writeFile (path text : Text) : Run m Unit := do
  Run.report (.writingFile path)
  match Path.parent? path with
  | none => pure ()
  | some parent => Run.ensure (.unwritableDirectory parent) (Host.makeDirectory parent)
  Run.ensure (.unwritableFile path) (Host.writeFile path text)
  Run.report (.wroteFile (Text.utf8Size text) path)

end ApiAnnotations.Build

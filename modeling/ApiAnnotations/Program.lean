import ApiAnnotations.Build
import ApiAnnotations.CommandLine
import ApiAnnotations.CommandLine.Help

/-! # The program

* `Program.validate` checks arguments against the host, `Program.run` does what they ask for.
* `Program.invoke` is a whole invocation: it ends with an exit code and perhaps an error. -/

namespace ApiAnnotations.Program

variable {m : Type → Type} [Monad m] [Host m]

/-- Checks that the source directory is there and some extension is wanted. -/
def validate (a : Arguments) : Run m Arguments := do
  Run.report (.readArguments a.shown)
  Run.ensure (.missingSource a.source) (Host.pathExists a.source)
  Run.ensure (.sourceNotDirectory a.source) (Host.isDirectory a.source)
  match a.withPlainExtensions with
  | none => throw .noExtension
  | some a =>
    Run.reportAll [.sourceChosen a.source, .formatChosen a.format, .outputChosen a.output]
    pure a

/-- Shows a document, or writes it into the output directory. -/
def deliver (a : Arguments) (text : Text) : Run m Unit := do
  match a.output with
  | none => ExceptT.lift (Host.print (text ++ ['\n']))
  | some output =>
    let path := Path.join output a.format.fileName
    Run.report (.writingDocument path)
    Build.writeFile path text

/-- Does what the arguments ask for: writes placeholder metadata, or builds a document. -/
def run (a : Arguments) : Run m Unit := do
  if a.init then
    let path ← Build.writeScaffold a.source
    Run.report (.wroteMetadata path)
  else
    let document ← Build.document a.source { extensions := a.extensions }
    Run.report (.documentBuilt document.paths.size document.definitions.size)
    Run.report (.writingFormat a.format)
    let text ← Build.serialize a.format document
    deliver a text

def execute (a : Arguments) : Run m Unit := do
  Run.report .started
  let a ← validate a
  run a
  Run.report .completed

structure Exit where
  code : Nat
  error : Option Text
deriving DecidableEq

/-- The line that tells the user about a failure; it ends with the first line of the message. -/
def errorLine (f : Failure) : Text :=
  "Error: ".toList ++ Text.dropFinal '\r' (f.message.takeWhile (· ≠ '\n'))

/-- Invokes the program with the arguments of a command line. -/
def invoke (arguments : List Text) : m Exit := do
  match Arguments.parse arguments with
  | .error (.usage _) => pure ⟨2, none⟩
  | .error (.help long) =>
    Host.print (Help.text long)
    pure ⟨0, none⟩
  | .error .version =>
    Host.print Help.version
    pure ⟨0, none⟩
  | .ok a =>
    match ← (execute a).run with
    | .ok _ => pure ⟨0, none⟩
    | .error f => pure ⟨1, some (errorLine f)⟩

end ApiAnnotations.Program

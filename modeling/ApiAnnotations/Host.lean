import ApiAnnotations.Event
import ApiAnnotations.Failure
import ApiAnnotations.Tree

/-! # Hosts

A host is where a run takes place: it has files and directories, keeps a log and shows text. All
that a run does with them goes through these operations, so a run can be followed on a host that is
a value as well as on a real one. -/

namespace ApiAnnotations

class Host (m : Type → Type) where
  readFile : (path : Text) → m (Option (List UInt8))
  pathExists : (path : Text) → m Bool
  isDirectory : (path : Text) → m Bool
  readDirectory : (path : Text) → m (Option (Tree Unit))
  /-- Makes a directory with those above it, and says whether it is there. -/
  makeDirectory : (path : Text) → m Bool
  /-- Writes a file, and says whether that could be done. -/
  writeFile : (path : Text) → Text → m Bool
  report : Event → m Unit
  print : Text → m Unit

/-- A part of a run, which may fail. -/
abbrev Run (m : Type → Type) (α : Type) := ExceptT Failure m α

namespace Run

variable {m : Type → Type} [Monad m] [Host m]

def report (e : Event) : Run m Unit := ExceptT.lift (Host.report e)

/-- Puts events into the log, one after the other. -/
def reportAll : List Event → Run m Unit
  | [] => pure ()
  | e :: es => do
    report e
    reportAll es

/-- Fails unless something could be done. -/
def ensure (failure : Failure) (done : m Bool) : Run m Unit := do
  if ← ExceptT.lift done then pure () else throw failure

/-- Fails unless something could be found. -/
def require {α : Type} (failure : Failure) (found : m (Option α)) : Run m α := do
  match ← ExceptT.lift found with
  | some a => pure a
  | none => throw failure

end Run

end ApiAnnotations

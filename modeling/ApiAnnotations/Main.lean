import ApiAnnotations.Program

/-! # The executable

The program on the real host. The log goes to the error stream. -/

namespace ApiAnnotations

/-- A run on the real host, which shows the events of a level and the more severe ones. -/
abbrev Console := ReaderT Level IO

namespace Console

/-- The result of an action, unless it fails. -/
def attempt {α : Type} (action : IO α) : IO (Option α) := do
  try return some (← action) catch _ => return none

def succeeds (action : IO Unit) : IO Bool := return (← attempt action).isSome

def locate (path : Text) := attempt (IO.FS.realPath (String.ofList path))

partial def readEntries (entries : List IO.FS.DirEntry) : IO (Tree Unit) := do
  let trees ← entries.mapM fun e => do
    if ← e.path.isDir then
      let inner ← attempt e.path.readDir
      return (e.fileName.toList, ← readEntries ((inner.map Array.toList).getD []))
    else return (e.fileName.toList, .file ())
  return .folder trees

instance : Host Console where
  readFile path := do
    let bytes ← attempt (IO.FS.readBinFile (String.ofList path))
    return bytes.map ByteArray.toList
  pathExists path := do
    match ← locate path with
    | none => return false
    | some p => p.pathExists
  isDirectory path := do
    match ← locate path with
    | none => return false
    | some p => p.isDir
  readDirectory path := do
    match ← locate path with
    | none => return none
    | some p =>
      match ← attempt p.readDir with
      | none => return none
      | some entries => return some (← readEntries entries.toList)
  makeDirectory path :=
    if path.isEmpty then return true else succeeds (IO.FS.createDirAll (String.ofList path))
  writeFile path s := succeeds (IO.FS.writeFile (String.ofList path) (String.ofList s))
  report e := do
    unless (Event.select (← read) [e]).isEmpty do IO.eprintln (String.ofList e.logLine)
  print s := IO.print (String.ofList s)

def levelFor (arguments : List Text) : Level :=
  match Arguments.parse arguments with
  | .ok a => if a.verbose then .debug else .info
  | .error _ => .info

end Console

end ApiAnnotations

open ApiAnnotations in
def main (args : List String) : IO UInt32 := do
  let arguments := args.map String.toList
  let exit ← (Program.invoke (m := Console) arguments).run (Console.levelFor arguments)
  match exit.error with
  | some line => IO.eprintln (String.ofList line)
  | none => if exit.code ≠ 0 then IO.eprintln "Usage: swagger-gen [OPTIONS]"
  return exit.code.toUInt32

import ApiAnnotations.Host
import ApiAnnotations.Text.Utf8

/-! # Workspaces

A workspace is a host that is a value: a tree of files, a current place in it, the log so far with
the latest event first, and the text shown so far.

* `Workspace.perform` makes a run in a workspace. -/

namespace ApiAnnotations

structure Workspace where
  tree : Tree (List UInt8)
  place : List Text
  log : List Event
  shown : Text

namespace Workspace

/-- The workspace with nothing but a folder of a name, from whose parent paths are followed. -/
def ofFolder (name : Text) : Workspace := ⟨.folder [(name, .empty)], [], [], []⟩

def find? (w : Workspace) (path : Text) : Option (Tree (List UInt8)) := w.tree.find? w.place path

def write? (w : Workspace) (path : Text) (bytes : List UInt8) : Option Workspace :=
  (w.tree.write? w.place path bytes).map (fun t => { w with tree := t })

/-- The workspace with the folders of a path, and whether all of them are there. -/
def makeFolders (w : Workspace) (path : Text) : Workspace × Bool :=
  let (t, done) := w.tree.makeFolders w.place path
  ({ w with tree := t }, done)

/-- The workspace without what a path leads to, and whether that could be removed. -/
def remove (w : Workspace) (path : Text) : Workspace × Bool :=
  let (t, done) := w.tree.remove w.place path
  ({ w with tree := t }, done)

instance : Host (StateM Workspace) where
  readFile path := do return ((← get).find? path).bind Tree.contents?
  pathExists path := do return ((← get).find? path).isSome
  isDirectory path := do return (((← get).find? path).map Tree.isFolder).getD false
  readDirectory path := do
    return (((← get).find? path).filter Tree.isFolder).map (Tree.map (fun _ => ()))
  makeDirectory path := modifyGet (fun w => ((w.makeFolders path).2, (w.makeFolders path).1))
  writeFile path s := modifyGet fun w =>
    match w.write? path (Text.encode s) with
    | none => (false, w)
    | some w => (true, w)
  report e := modify (fun w => { w with log := e :: w.log })
  print s := modify (fun w => { w with shown := w.shown ++ s })

def perform {α : Type} (run : Run (StateM Workspace) α) (w : Workspace) :
    Except Failure α × Workspace :=
  let (result, w) := run.run.run w
  (result, w)

end Workspace

end ApiAnnotations

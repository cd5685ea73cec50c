import ApiAnnotations.Tree

/-! # Source files of a tree

The source files of a directory are the files below it that have one of the wanted extensions.
Hidden folders and folders of dependencies and build results are not entered; the directory itself
may have any name. The files are sorted component by component, whatever the order of the entries.

* `Scan.sources` are the paths of the source files, as names below the directory. -/

namespace ApiAnnotations.Scan

def skippedNames : List Text := ["vendor", "target", "node_modules"]

def isSkipped (name : Text) : Bool := name.head? == some '.' || skippedNames.contains name

/-- Whether a file of this name has one of the extensions. -/
def isWanted (extensions : List Text) (name : Text) : Bool :=
  match Path.extension? name with
  | none => false
  | some e => extensions.contains e

mutual

/-- The wanted files below a directory, in the order of the entries. -/
def walk {α : Type} (extensions : List Text) : Tree α → List (List Text)
  | .file _ => []
  | .folder es => walkEntries extensions es

def walkEntries {α : Type} (extensions : List Text) : List (Text × Tree α) → List (List Text)
  | [] => []
  | (name, .file _) :: es =>
    (if isWanted extensions name then [[name]] else []) ++ walkEntries extensions es
  | (name, .folder inner) :: es =>
    (if isSkipped name then [] else (walkEntries extensions inner).map (name :: ·)) ++
      walkEntries extensions es

end

/-- The order of paths: the first components that differ decide. -/
def precedes : List Text → List Text → Bool
  | [], _ => true
  | _ :: _, [] => false
  | a :: as, b :: bs => decide (a < b) || (a == b && precedes as bs)

/-- The wanted files below a directory, sorted. -/
def sources {α : Type} (extensions : List Text) (t : Tree α) : List (List Text) :=
  (walk extensions t).mergeSort precedes

def pathBelow (root : Text) (names : List Text) : Text := names.foldl Path.join root

end ApiAnnotations.Scan

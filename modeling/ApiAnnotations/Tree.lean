import ApiAnnotations.Path

/-! # Directory trees

A tree is a file with contents or a folder with named trees. A path is followed component by
component from a place in the tree; every component but a last name needs a folder to start from.

* `Tree.follow` is the place that a path leads to, as the names from the top.
* `Tree.read?`, `Tree.write?`, `Tree.makeFolders` and `Tree.remove` are the operations on paths. -/

namespace ApiAnnotations

inductive Tree (α : Type)
  | file (contents : α)
  | folder (entries : List (Text × Tree α))

namespace Tree

variable {α : Type}

/-- The folder without entries. -/
def empty : Tree α := .folder []

def isFolder : Tree α → Bool
  | .file _ => false
  | .folder _ => true

def contents? : Tree α → Option α
  | .file a => some a
  | .folder _ => none

def entries : Tree α → List (Text × Tree α)
  | .file _ => []
  | .folder es => es

def child? (t : Tree α) (name : Text) : Option (Tree α) := t.entries.lookup name

/-- Entries with a tree put under a name, in the place of one with this name. -/
def putEntry (name : Text) (t : Tree α) : List (Text × Tree α) → List (Text × Tree α)
  | [] => [(name, t)]
  | e :: es => if e.1 = name then (name, t) :: es else e :: putEntry name t es

def at? (t : Tree α) : (place : List Text) → Option (Tree α)
  | [] => some t
  | name :: names => (t.child? name).bind (fun u => u.at? names)

def hasFolder (t : Tree α) (place : List Text) : Bool := ((t.at? place).map isFolder).getD false

/-- The tree with another one put under a name in the folder at a place. -/
def put (t : Tree α) (place : List Text) (name : Text) (new : Tree α) : Tree α :=
  match place with
  | [] => .folder (putEntry name new t.entries)
  | n :: ns => .folder (putEntry n (((t.child? n).getD empty).put ns name new) t.entries)

/-- The tree without the entry of a name in the folder at a place. -/
def erase (t : Tree α) (place : List Text) (name : Text) : Tree α :=
  match place with
  | [] => .folder (t.entries.filter (fun e => e.1 ≠ name))
  | n :: ns => .folder (putEntry n (((t.child? n).getD empty).erase ns name) t.entries)

/-! ## Paths -/

def follow (t : Tree α) : (place : List Text) → (components : List Text) → Option (List Text)
  | place, [] => some place
  | place, c :: cs =>
    if !t.hasFolder place then none
    else if Path.isIdle c then follow t place cs
    else if c = Path.upward then follow t place.dropLast cs
    else if (t.at? (place ++ [c])).isSome then follow t (place ++ [c]) cs
    else none

/-- Where a path starts: at the top if it is absolute, otherwise at the place given. -/
def startOf (start : List Text) (path : Text) : List Text :=
  if path.head? == some '/' then [] else start

/-- The place that a path leads to; an empty path leads nowhere. -/
def locate? (t : Tree α) (start : List Text) (path : Text) : Option (List Text) :=
  if path.isEmpty || !Path.isUsable path then none
  else t.follow (startOf start path) (Path.components path)

def find? (t : Tree α) (start : List Text) (path : Text) : Option (Tree α) :=
  (t.locate? start path).bind t.at?

def read? (t : Tree α) (start : List Text) (path : Text) : Option α :=
  (t.find? start path).bind contents?

/-- The tree with a file written, unless a folder is missing or the path names one. -/
def write? (t : Tree α) (start : List Text) (path : Text) (a : α) : Option (Tree α) :=
  let components := Path.components path
  match components.getLast? with
  | none => none
  | some name =>
    if !Path.isUsable path || !Path.isName name then none
    else if Path.isIdle name || name == Path.upward then none
    else
      match t.follow (startOf start path) components.dropLast with
      | none => none
      | some place =>
        if !t.hasFolder place || t.hasFolder (place ++ [name]) then none
        else some (t.put place name (.file a))

/-- Makes the folders that components name, up to one that a file is in the way of or that cannot
have its name, and says whether all of them are there. A folder that is missing cannot be made
through its own `.` either. -/
def makeFoldersFrom (t : Tree α) : (place : List Text) → (components : List Text) → Tree α × Bool
  | _, [] => (t, true)
  | place, c :: cs =>
    if Path.isIdle c then makeFoldersFrom t place cs
    else if c = Path.upward then makeFoldersFrom t place.dropLast cs
    else
      match t.at? (place ++ [c]) with
      | some (.folder _) => makeFoldersFrom t (place ++ [c]) cs
      | some (.file _) => (t, false)
      | none =>
        if Path.isName c && !(cs.all Path.isIdle && cs.contains Path.itself) then
          makeFoldersFrom (t.put place c empty) (place ++ [c]) cs
        else (t, false)

/-- Makes the folders of a path, and says whether all of them are there. -/
def makeFolders (t : Tree α) (start : List Text) (path : Text) : Tree α × Bool :=
  if Path.isUsable path then t.makeFoldersFrom (startOf start path) (Path.components path)
  else (t, false)

/-- The tree without what is at a place. -/
def eraseAt (t : Tree α) (place : List Text) : Tree α :=
  match place.getLast? with
  | none => empty
  | some name => t.erase place.dropLast name

def clearAt (t : Tree α) (place : List Text) : Tree α :=
  match place.getLast? with
  | none => empty
  | some name => t.put place.dropLast name empty

/-- Removes what a path leads to, and says whether that could be done. A folder that the path calls
`..` is only emptied: the way to it is among what is removed. One that it calls `.` is emptied as
well, but then refuses to go. -/
def remove (t : Tree α) (start : List Text) (path : Text) : Tree α × Bool :=
  match t.locate? start path with
  | none => (t, false)
  | some place =>
    let last := Path.lastComponent? path
    if last = some Path.itself then (t.clearAt place, false)
    else if last = some Path.upward then (t.clearAt place, true)
    else (t.eraseAt place, true)

/-! ## Listings -/

mutual

/-- The tree with all contents replaced by a function of them. -/
def map {β : Type} (f : α → β) : Tree α → Tree β
  | .file a => .file (f a)
  | .folder es => .folder (mapEntries f es)

/-- The entries with all contents replaced by a function of them. -/
def mapEntries {β : Type} (f : α → β) : List (Text × Tree α) → List (Text × Tree β)
  | [] => []
  | (name, t) :: es => (name, map f t) :: mapEntries f es

end

mutual

/-- The paths of all files and folders below a path that ends in a slash; so do those of folders. -/
def listing (above : Text) : Tree α → List Text
  | .file _ => []
  | .folder es => listingEntries above es

def listingEntries (above : Text) : List (Text × Tree α) → List Text
  | [] => []
  | (name, .file _) :: es => (above ++ name) :: listingEntries above es
  | (name, .folder inner) :: es =>
    (above ++ name ++ ['/']) :: listingEntries (above ++ name ++ ['/']) inner ++
      listingEntries above es

end

/-- The paths of all files and folders below a folder, sorted. -/
def paths (t : Tree α) : List Text := (t.listing []).mergeSort (fun a b => !decide (b < a))

end Tree

end ApiAnnotations

import ApiAnnotations.Text.Utf8

/-! # Paths

A path is a text whose components are separated by slashes. It is kept as it was written; only a
name is ever put behind it, and only its last component is ever taken away.

* `Path.join` puts a relative path behind a path.
* `Path.parent?` is the path without its last component.
* `Path.extension?` is the extension of a file name.
* `Path.isUsable` and `Path.isName` say which paths can be followed and which names can be given. -/

namespace ApiAnnotations.Path

/-- A path followed by a relative one; an absolute one stands for itself. -/
def join (path name : Text) : Text :=
  if path.isEmpty || name.head? == some '/' then name
  else if path.getLast? == some '/' then path ++ name
  else path ++ ['/'] ++ name

def components (path : Text) : List Text := Text.splitOn '/' path

def itself : Text := ['.']

def upward : Text := ['.', '.']

def isIdle (component : Text) : Bool := component.isEmpty || component == itself

def lastComponent? (path : Text) : Option Text :=
  ((components path).filter (fun c => !c.isEmpty)).getLast?

/-- Components without the idle ones at their end. -/
def dropIdleEnd (components : List Text) : List Text :=
  (components.reverse.dropWhile isIdle).reverse

/-- The path without its last component, if it has one. -/
def parent? (path : Text) : Option Text :=
  match dropIdleEnd (components path) with
  | [] => none
  | cs => some (Text.joinWith ['/'] (dropIdleEnd cs.dropLast))

/-- What follows the last point of a file name, unless that is the first character. -/
def extension? (name : Text) : Option Text :=
  if name == upward then none
  else
    match Text.splitOn '.' name with
    | [] => none
    | [_] => none
    | [[], _] => none
    | pieces => pieces.getLast?

/-! ## Limits -/

def maxNameSize : Nat := 255

def maxSize : Nat := 4095

def isName (component : Text) : Bool := decide (Text.utf8Size component ≤ maxNameSize)

/-- Whether a path can be followed at all: it is short enough and holds no NUL. -/
def isUsable (path : Text) : Bool :=
  decide (Text.utf8Size path ≤ maxSize) && path.all (· ≠ '\x00')

end ApiAnnotations.Path

import ApiAnnotations.Json.Draft
import ApiAnnotations.OrderedMap

/-! # Reading JSON values of a kind

A reader makes a value of a draft, or tells the first fault. It is given how many containers may
still be opened; one container more is not read.

* `Reader.run` reads a whole text.
* `wrongKind` is the fault of a value of another kind: numerals and texts are read before they are
  refused, containers are not.
* `Codec` pairs a reader with the value that is written. -/

namespace ApiAnnotations.Json

/-- Reads a value with a bound on the nesting of its containers. -/
abbrev Reader (α : Type) := (depth : Nat) → Draft → Except Fault α

def maxDepth : Nat := 127

def wrongKind : Draft → Fault
  | .null => .mismatch
  | .bool _ => .mismatch
  | .numeral n => if n.value?.isSome then .mismatch else .malformed
  | .badNumeral atEnd => if atEnd then .unfinished else .malformed
  | .string q =>
    match q.text with
    | .ok _ => .mismatch
    | .error f => f
  | .array _ _ => .mismatch
  | .object _ _ => .mismatch
  | .broken f => f

/-- The value, unless something ended its container before it was closed. -/
def closing {α : Type} (stop : Option Fault) (a : α) : Except Fault α :=
  match stop with
  | none => .ok a
  | some f => .error f

/-- Opens a container if one more may be opened. -/
def opening {α : Type} (depth : Nat) (inner : Nat → Except Fault α) : Except Fault α :=
  match depth with
  | 0 => .error .malformed
  | depth + 1 => inner depth

namespace Reader

def text : Reader Text := fun _ d =>
  match d with
  | .string q => q.text
  | d => .error (wrongKind d)

def bool : Reader Bool := fun _ d =>
  match d with
  | .bool b => .ok b
  | d => .error (wrongKind d)

def optional {α : Type} (inner : Reader α) : Reader (Option α) := fun depth d =>
  match d with
  | .null => .ok none
  | d => (inner depth d).map some

def items {α : Type} (inner : Draft → Except Fault α) : List Draft → Except Fault (List α)
  | [] => .ok []
  | d :: ds => do
    let a ← inner d
    let as ← items inner ds
    .ok (a :: as)

def members {α : Type} (inner : Draft → Except Fault α) :
    List (Quoted × Draft) → Except Fault (List (Text × α))
  | [] => .ok []
  | (q, d) :: ms => do
    let key ← q.text
    let a ← inner d
    let rest ← members inner ms
    .ok ((key, a) :: rest)

def list {α : Type} (inner : Reader α) : Reader (List α) := fun depth d =>
  match d with
  | .array ds stop => opening depth fun depth => do
    let as ← items (inner depth) ds
    closing stop as
  | d => .error (wrongKind d)

/-- Reads a map: of repeated keys the first place and the last value count. -/
def map {α : Type} (inner : Reader α) : Reader (OrderedMap Text α) := fun depth d =>
  match d with
  | .object ms stop => opening depth fun depth => do
    let pairs ← members (inner depth) ms
    closing stop (.ofList pairs)
  | d => .error (wrongKind d)

end Reader

/-! ## Values of any kind -/

/-- Puts a member in its place among members sorted by key; it replaces one with the same key. -/
def insertSorted {α : Type} (key : Text) (a : α) : List (Text × α) → List (Text × α)
  | [] => [(key, a)]
  | m :: ms =>
    if key = m.1 then (key, a) :: ms
    else if key < m.1 then (key, a) :: m :: ms
    else m :: insertSorted key a ms

/-- Members sorted by key, of which the last with each key counts. -/
def sortMembers {α : Type} (ms : List (Text × α)) : List (Text × α) :=
  ms.foldl (fun sorted m => insertSorted m.1 m.2 sorted) []

/-- Reads a value of any kind; the members of its objects are sorted by key. -/
def readAny : Nat → Draft → Except Fault Json
  | _, .null => .ok .null
  | _, .bool b => .ok (.bool b)
  | _, .numeral n =>
    match n.value? with
    | some x => .ok (.number x)
    | none => .error .malformed
  | _, .string q => q.text.map .string
  | depth + 1, .array ds stop => do
    let vs ← Reader.items (readAny depth) ds
    closing stop (.array vs)
  | depth + 1, .object ms stop => do
    let pairs ← Reader.members (readAny depth) ms
    closing stop (.object (sortMembers pairs))
  | 0, .array _ _ => .error .malformed
  | 0, .object _ _ => .error .malformed
  | _, d => .error (wrongKind d)

def Reader.any : Reader Json := readAny

/-- Reads a whole text. Nothing but space may follow the value. -/
def Reader.run {α : Type} (reader : Reader α) (s : Text) : Except Fault α :=
  let (d, rest) := Draft.ofText s
  match reader maxDepth d with
  | .error f => .error f
  | .ok a => if (Draft.skipSpace rest).isEmpty then .ok a else .error .malformed

/-! ## Codecs -/

structure Codec (α : Type) where
  read : Reader α
  write : α → Json

namespace Codec

def text : Codec Text := ⟨.text, .string⟩

def bool : Codec Bool := ⟨.bool, .bool⟩

def any : Codec Json := ⟨.any, id⟩

def optional {α : Type} (c : Codec α) : Codec (Option α) where
  read := .optional c.read
  write
    | none => .null
    | some a => c.write a

def list {α : Type} (c : Codec α) : Codec (List α) where
  read := .list c.read
  write as := .array (as.map c.write)

/-- Maps, in the order of their keys. -/
def map {α : Type} (c : Codec α) : Codec (OrderedMap Text α) where
  read := .map c.read
  write m := .object (m.entries.map (fun e => (e.1, c.write e.2)))

end Codec

end ApiAnnotations.Json

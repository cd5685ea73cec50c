import ApiAnnotations.Json
import ApiAnnotations.Text.Utf8
import ApiAnnotations.Yaml.Pen

/-! # YAML

A tree is written in block notation with two spaces of indentation. Items of a sequence that is the
value of a key stand under the key without indentation; a collection inside a sequence begins on the
line of its dash.

* `Yaml.ofTree` writes a tree. -/

namespace ApiAnnotations.Yaml

/-- Floats in YAML: as in JSON, but without a plus sign. -/
def floatStyle : FloatStyle := ⟨16, 5, false⟩

def numberText : Number → Text
  | .integer n => Text.Decimal.ofInt n
  | .float negative x => floatStyle.text negative x

def step : Nat := 2

/-- The column of a collection inside another one; the outermost stands at the margin. -/
def collectionColumn : (outer : Option Nat) → Nat
  | none => 0
  | some column => column + step

def scalarColumn (outer : Option Nat) : Nat := outer.getD 0 + step

/-- The longest key, in bytes, that stands before its colon. -/
def maxSimpleKey : Nat := 128

/-- Whether a key may stand before its colon on one line. -/
def isSimpleKey (key : Text) : Bool := !key.any isBreak && Text.utf8Size key ≤ maxSimpleKey

def writeText (outer : Option Nat) (s : Text) (pen : Pen) : Pen :=
  pen.scalar step (scalarColumn outer) s

/-- Writes a key at a column, up to where its value begins. -/
def writeKey (column : Nat) (key : Text) (pen : Pen) : Pen :=
  if isSimpleKey key then (writeText (some column) key pen).suffix ':'
  else ((writeText (some column) key (pen.marker '?')).indent column).marker ':'

/-- The column of a sequence, which depends on whether it is the value of a key on the same line. -/
def sequenceColumn (outer : Option Nat) (isValue : Bool) (pen : Pen) : Nat :=
  if isValue && !pen.onlyIndent then outer.getD 0 else collectionColumn outer

mutual

/-- Writes a tree inside a collection at a column; `isValue` says that it is the value of a key. -/
def write (outer : Option Nat) (isValue : Bool) : Json → Pen → Pen
  | .null, pen => pen.plain "null"
  | .bool true, pen => pen.plain "true"
  | .bool false, pen => pen.plain "false"
  | .number n, pen => pen.plain (numberText n)
  | .string s, pen => writeText outer s pen
  | .array [], pen => pen.plain "[]"
  | .array (v :: vs), pen => writeItems (sequenceColumn outer isValue pen) (v :: vs) pen
  | .object [], pen => pen.plain ['{', '}']
  | .object (m :: ms), pen => writeMembers (collectionColumn outer) (m :: ms) pen

def writeItems (column : Nat) : List Json → Pen → Pen
  | [], pen => pen
  | v :: vs, pen =>
    writeItems column vs (write (some column) false v ((pen.indent column).marker '-'))

def writeMembers (column : Nat) : List (Text × Json) → Pen → Pen
  | [], pen => pen
  | (key, v) :: ms, pen =>
    writeMembers column ms (write (some column) true v (writeKey column key (pen.indent column)))

end

def ofTree (v : Json) : Text := ((write none false v .start).indent 0).text

end ApiAnnotations.Yaml

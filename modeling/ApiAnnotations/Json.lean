import ApiAnnotations.Binary64.Shortest
import ApiAnnotations.Text.Decimal

/-! # JSON values

A value is a tree; the members of an object are a list, so that the order in which they are written
is part of the value.

* `Json.pretty` writes a value with two spaces of indentation and one element or member a line.
* `Json.quote` writes a text: only quotes, backslashes and control characters are escaped. -/

namespace ApiAnnotations

/-- A number: an integer, or a double with its sign. -/
inductive Number
  | integer (value : Int)
  | float (negative : Bool) (magnitude : Binary64)
deriving DecidableEq

inductive Json
  | null
  | bool (value : Bool)
  | number (value : Number)
  | string (value : Text)
  | array (items : List Json)
  | object (members : List (Text × Json))

namespace Json

/-- Floats in JSON: positional up to sixteen digits before the point and down to four zeros after
it, and exponents always have a sign. -/
def floatStyle : FloatStyle := ⟨16, 5, true⟩

def numberText : Number → Text
  | .integer n => Text.Decimal.ofInt n
  | .float negative x => floatStyle.text negative x

def hexDigit (n : Nat) : Char := Nat.digitChar (n % 16)

def escape (c : Char) : Text :=
  if c = '"' then ['\\', '"']
  else if c = '\\' then ['\\', '\\']
  else if c = '\n' then ['\\', 'n']
  else if c = '\t' then ['\\', 't']
  else if c = '\r' then ['\\', 'r']
  else if c = Char.ofNat 8 then ['\\', 'b']
  else if c = Char.ofNat 12 then ['\\', 'f']
  else if c.toNat < 32 then ['\\', 'u', '0', '0', hexDigit (c.toNat / 16), hexDigit c.toNat]
  else [c]

def quote (s : Text) : Text := ['"'] ++ s.flatMap escape ++ ['"']

def indentWidth : Nat := 2

def newLine (level : Nat) : Text := '\n' :: List.replicate (indentWidth * level) ' '

mutual

/-- Writes a value that stands at a level of indentation. -/
def write (level : Nat) : Json → Text
  | .null => "null"
  | .bool true => "true"
  | .bool false => "false"
  | .number n => numberText n
  | .string s => quote s
  | .array [] => "[]"
  | .array (v :: vs) =>
    ['['] ++ newLine (level + 1) ++ write (level + 1) v ++ writeItems (level + 1) vs ++
      newLine level ++ [']']
  | .object [] => ['{', '}']
  | .object ((k, v) :: ms) =>
    ['{'] ++ newLine (level + 1) ++ quote k ++ [':', ' '] ++ write (level + 1) v ++
      writeMembers (level + 1) ms ++ newLine level ++ ['}']

/-- Writes the items after the first. -/
def writeItems (level : Nat) : List Json → Text
  | [] => []
  | v :: vs => [','] ++ newLine level ++ write level v ++ writeItems level vs

/-- Writes the members after the first. -/
def writeMembers (level : Nat) : List (Text × Json) → Text
  | [] => []
  | (k, v) :: ms =>
    [','] ++ newLine level ++ quote k ++ [':', ' '] ++ write level v ++ writeMembers level ms

end

def pretty (v : Json) : Text := write 0 v

end Json

end ApiAnnotations

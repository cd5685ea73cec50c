import ApiAnnotations.Json.Numeral
import ApiAnnotations.Json.Quoted

/-! # Drafts

A draft is what a text says before it is decided what kind of value is wanted: the tree that was
read up to the first fault of its syntax. What follows a fault is not in the draft, so a reader that
goes through a draft in order meets faults in the order of the text.

* `Draft.ofText` reads a draft and returns the text after it.
* `Draft.fault?` is the first fault met by a reader that does not look at the contents. -/

namespace ApiAnnotations.Json

/-- A value as it stands in a text. A container says which fault ended it before it was closed. -/
inductive Draft
  | null
  | bool (value : Bool)
  | numeral (n : Numeral)
  | badNumeral (atEnd : Bool)
  | string (q : Quoted)
  | array (items : List Draft) (stop : Option Fault)
  | object (members : List (Quoted × Draft)) (stop : Option Fault)
  | broken (f : Fault)

namespace Draft

def isSpace (c : Char) : Bool := c = ' ' || c = '\t' || c = '\n' || c = '\r'

def skipSpace (s : Text) : Text := s.dropWhile isSpace

/-- The text after a word that must stand at its beginning. -/
def readWord : (word : Text) → Text → Except Fault Text
  | [], s => .ok s
  | _ :: _, [] => .error .unfinished
  | c :: word, d :: s => if c = d then readWord word s else .error .malformed

def ofWord (meaning : Draft) (word s : Text) : Draft × Text :=
  match readWord word s with
  | .ok rest => (meaning, rest)
  | .error f => (.broken f, [])

def ofNumeral (s : Text) : Draft × Text :=
  match Numeral.read s with
  | .ok (n, rest) => (.numeral n, rest)
  | .error atEnd => (.badNumeral atEnd, [])

/-- The fault of a text that goes on with none of the characters allowed. -/
def faultAt : Text → Fault
  | [] => .unfinished
  | _ :: _ => .malformed

mutual

/-- Reads a draft, with as many steps as given. -/
def readValue : (steps : Nat) → Text → Draft × Text
  | 0, _ => (.broken .unfinished, [])
  | steps + 1, s =>
    match skipSpace s with
    | [] => (.broken .unfinished, [])
    | c :: r =>
      if c = 'n' then ofWord .null "ull" r
      else if c = 't' then ofWord (.bool true) "rue" r
      else if c = 'f' then ofWord (.bool false) "alse" r
      else if c = '-' || Text.Decimal.isDigit c then ofNumeral (c :: r)
      else if c = '"' then
        let (q, rest) := Quoted.read r
        (.string q, rest)
      else if c = '[' then
        match skipSpace r with
        | ']' :: rest => (.array [] none, rest)
        | [] => (.array [] (some .unfinished), [])
        | r =>
          let (items, stop, rest) := readItems steps r
          (.array items stop, rest)
      else if c = '{' then
        match skipSpace r with
        | '}' :: rest => (.object [] none, rest)
        | r =>
          let (members, stop, rest) := readMembers steps r
          (.object members stop, rest)
      else (.broken .malformed, [])

/-- Reads the items of an array from the first, or from after a comma. -/
def readItems : (steps : Nat) → Text → List Draft × Option Fault × Text
  | 0, _ => ([], some .unfinished, [])
  | steps + 1, s =>
    let (item, r) := readValue steps s
    match skipSpace r with
    | ',' :: r =>
      let (items, stop, rest) := readItems steps r
      (item :: items, stop, rest)
    | ']' :: rest => ([item], none, rest)
    | r => ([item], some (faultAt r), [])

/-- Reads the members of an object from the first, or from after a comma. -/
def readMembers : (steps : Nat) → Text → List (Quoted × Draft) × Option Fault × Text
  | 0, _ => ([], some .unfinished, [])
  | steps + 1, s =>
    match skipSpace s with
    | '"' :: r =>
      let (key, r) := Quoted.read r
      match skipSpace r with
      | ':' :: r =>
        let (value, r) := readValue steps r
        match skipSpace r with
        | ',' :: r =>
          let (members, stop, rest) := readMembers steps r
          ((key, value) :: members, stop, rest)
        | '}' :: rest => ([(key, value)], none, rest)
        | r => ([(key, value)], some (faultAt r), [])
      | r => ([(key, .broken (faultAt r))], some (faultAt r), [])
    | r => ([], some (faultAt r), [])

end

/-- The draft at the beginning of a text and the text after it. Every two steps read a character. -/
def ofText (s : Text) : Draft × Text := readValue (2 * s.length + 2) s

mutual

/-- The first fault met without looking at the contents. -/
def fault? : Draft → Option Fault
  | .null => none
  | .bool _ => none
  | .numeral _ => none
  | .badNumeral _ => some .malformed
  | .string q => q.fault
  | .array items stop => (itemsFault? items).or stop
  | .object members stop => (membersFault? members).or stop
  | .broken f => some f

/-- The first fault met in items. -/
def itemsFault? : List Draft → Option Fault
  | [] => none
  | d :: ds => (fault? d).or (itemsFault? ds)

/-- The first fault met in members. -/
def membersFault? : List (Quoted × Draft) → Option Fault
  | [] => none
  | (key, d) :: ms => (key.fault.or (fault? d)).or (membersFault? ms)

end

end Draft

end ApiAnnotations.Json

import ApiAnnotations.FieldType
import ApiAnnotations.GrammarError
import ApiAnnotations.Text.Blank

/-! # Parameters

`@param <name> <type> [in:<location>] [required|optional] [description...]`. At most two modifiers
are read; the first word that is none, or the third word after the type, begins the description.

* `Param.parse` reads the argument. -/

namespace ApiAnnotations

inductive ParamLocation
  | path
  | query
  | form
  | header
  | body
deriving DecidableEq

namespace ParamLocation

def ofName? (name : Text) : Option ParamLocation :=
  if name = "path".toList then some .path
  else if name = "query".toList then some .query
  else if name = "form".toList then some .form
  else if name = "header".toList then some .header
  else if name = "body".toList then some .body
  else none

def name : ParamLocation → Text
  | .path => "path"
  | .query => "query"
  | .form => "form"
  | .header => "header"
  | .body => "body"

def documentName : ParamLocation → Text
  | .form => "formData"
  | location => location.name

end ParamLocation

structure Param where
  name : Text
  type : ParamType
  location : ParamLocation
  required : Bool
  description : Text
deriving DecidableEq

inductive Modifier
  | location (location : ParamLocation)
  | required (required : Bool)
deriving DecidableEq

namespace Modifier

/-- The modifier a word denotes; a word beginning with `in:` must name a location. -/
def ofWord? (word : Text) : Except GrammarError (Option Modifier) :=
  match Text.stripStart? "in:".toList word with
  | some name =>
    match ParamLocation.ofName? name with
    | some l => .ok (some (.location l))
    | none => .error (.unknownLocation name)
  | none =>
    if word = "required".toList then .ok (some (.required true))
    else if word = "optional".toList then .ok (some (.required false))
    else .ok none

def apply (p : Param) : Modifier → Param
  | .location l => { p with location := l }
  | .required b => { p with required := b }

end Modifier

namespace Param

def modifierSlots : Nat := 2

/-- Applies up to `slots` modifiers at the beginning of the words; returns the words after them. -/
def readModifiers : (slots : Nat) → Param → List Text → Except GrammarError (Param × List Text)
  | 0, p, words => .ok (p, words)
  | _ + 1, p, [] => .ok (p, [])
  | slots + 1, p, w :: ws =>
    match Modifier.ofWord? w with
    | .error e => .error e
    | .ok none => .ok (p, w :: ws)
    | .ok (some m) => readModifiers slots (m.apply p) ws

/-- Reads the argument of `@param`. A parameter is a required one in the query unless modified. -/
def parse (argument : Text) : Except GrammarError Param :=
  match Text.words argument with
  | name :: type :: ws =>
    match readModifiers modifierSlots ⟨name, .ofToken type, .query, true, []⟩ ws with
    | .error e => .error e
    | .ok (p, rest) => .ok { p with description := Text.unwords rest }
  | _ => .error (.malformedParam argument)

end Param

end ApiAnnotations

import ApiAnnotations.Text

/-! # Types of parameters and fields

* `Primitive.ofName?` : the primitive a type name denotes; `firstOf?_eq_ofName?` : it is found in
  whichever order the primitives are tried.
* `ParamType.ofToken` : a primitive, or the name of a model.
* `FieldType.ofToken` : the same for a field, after its array and pointer markers are stripped and a
  qualified name is reduced to its last segment. A primitive absorbs the array marker. -/

namespace ApiAnnotations

inductive Primitive
  | integer
  | number
  | string
  | boolean
deriving DecidableEq

namespace Primitive

def name : Primitive → Text
  | .integer => "integer"
  | .number => "number"
  | .string => "string"
  | .boolean => "boolean"

/-- Names beginning with `int` or `float` are numeric; `string` and `bool` are meant exactly. -/
def ofName? (s : Text) : Option Primitive :=
  if Text.startsWith "int".toList s then some .integer
  else if Text.startsWith "float".toList s then some .number
  else if s = "string".toList then some .string
  else if s = "bool".toList then some .boolean
  else none

/-- Whether a type name denotes the primitive. -/
def isDenotedBy (s : Text) : Primitive → Bool
  | .integer => Text.startsWith "int".toList s
  | .number => Text.startsWith "float".toList s
  | .string => s = "string".toList
  | .boolean => s = "bool".toList

/-- The first of some primitives that a type name denotes. -/
def firstOf? (order : List Primitive) (s : Text) : Option Primitive := order.find? (isDenotedBy s)

theorem eq_of_isDenotedBy {s : Text} {p q : Primitive} (hp : isDenotedBy s p = true)
    (hq : isDenotedBy s q = true) : p = q := by
  -- The four kinds of names differ in their first letter.
  cases s with
  | nil => cases p <;> simp [isDenotedBy, Text.startsWith] at hp
  | cons c s =>
    cases p <;> cases q <;> simp_all [isDenotedBy, Text.startsWith]
    all_goals exact absurd (hp.1.trans hq.1.symm) (by decide)

theorem firstOf?_eq_some_iff {order : List Primitive} {s : Text} {p : Primitive} :
    firstOf? order s = some p ↔ p ∈ order ∧ isDenotedBy s p = true := by
  constructor
  · exact fun h => ⟨List.mem_of_find?_eq_some h, List.find?_some h⟩
  · rintro ⟨hmem, hp⟩
    cases hfirst : firstOf? order s with
    | none => exact absurd hp (List.find?_eq_none.mp hfirst p hmem)
    | some q => rw [eq_of_isDenotedBy hp (List.find?_some hfirst)]

theorem ofName?_eq_firstOf? (s : Text) :
    ofName? s = firstOf? [.integer, .number, .string, .boolean] s := by
  simp only [ofName?, firstOf?, List.find?_cons, List.find?_nil, isDenotedBy]
  repeat' split
  all_goals simp_all

/-- **The order in which the primitives are tried does not matter.** -/
theorem firstOf?_eq_ofName? {order : List Primitive} (h : ∀ p, p ∈ order) (s : Text) :
    firstOf? order s = ofName? s := by
  apply Option.ext
  intro p
  rw [ofName?_eq_firstOf?, firstOf?_eq_some_iff, firstOf?_eq_some_iff]
  exact and_congr_left' (iff_of_true (h p) (by cases p <;> decide))

end Primitive

inductive ParamType
  | primitive (type : Primitive)
  | reference (name : Text)
deriving DecidableEq

namespace ParamType

/-- The order in which the primitives are tried. -/
def order : List Primitive := [.integer, .boolean, .string, .number]

def ofToken (token : Text) : ParamType :=
  match Primitive.firstOf? order token with
  | some p => .primitive p
  | none => .reference token

theorem firstOf?_order (s : Text) : Primitive.firstOf? order s = Primitive.ofName? s :=
  Primitive.firstOf?_eq_ofName? (fun p => by cases p <;> decide) s

/-- The name of the primitive, or the name referred to. -/
def name : ParamType → Text
  | .primitive p => p.name
  | .reference name => name

end ParamType

/-- The type of a model's field; models are referred to by their unqualified names. -/
inductive FieldType
  | primitive (type : Primitive)
  | array (name : Text)
  | object (name : Text)
deriving DecidableEq

namespace FieldType

/-- Strips the markers `[]` and `*` at the beginning, telling whether an array marker was seen. -/
def stripMarkers (seen : Bool) : Text → Bool × Text
  | '[' :: ']' :: s => stripMarkers true s
  | '*' :: s => stripMarkers seen s
  | s => (seen, s)

def lastSegment (s : Text) : Text := (Text.splitOn '.' s).getLast?.getD s

/-- The order in which the primitives are tried. -/
def order : List Primitive := [.number, .integer, .string, .boolean]

def ofToken (token : Text) : FieldType :=
  let (isArray, rest) := stripMarkers false token
  let name := lastSegment rest
  match Primitive.firstOf? order name with
  | some p => .primitive p
  | none => if isArray then .array name else .object name

theorem firstOf?_order (s : Text) : Primitive.firstOf? order s = Primitive.ofName? s :=
  Primitive.firstOf?_eq_ofName? (fun p => by cases p <;> decide) s

/-- The name of the type in a schema; an object has none, as it is referred to. -/
def typeName? : FieldType → Option Text
  | .primitive p => some p.name
  | .array _ => some "array"
  | .object _ => none

def reference? : FieldType → Option Text
  | .primitive _ => none
  | .array name => some name
  | .object name => some name

end FieldType

end ApiAnnotations

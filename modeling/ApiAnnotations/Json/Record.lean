import ApiAnnotations.Json.Reader

/-! # Records in JSON

A record is written as an object with a member for each field that is not left out. It is read from
an object in any order of keys, or from an array that gives the values of its fields in order. A key
may not be repeated, a required field may not be missing, and unknown keys are passed over.

* `Shape` describes a record type by its fields; `Shape.codec` reads and writes it.
* A reader starts from the blank record, and each value that is read changes one field of it. -/

namespace ApiAnnotations.Json

/-- A field of a record type: its key, whether it must be given, the change of the record that a
value makes, and the value written, if any. -/
structure Field (σ : Type) where
  key : Text
  isRequired : Bool
  read : Reader (σ → σ)
  write : σ → Option Json

namespace Field

variable {σ α : Type}

/-- A field with access to its value; it is left out where `omitted` holds. -/
def of (key : Text) (isRequired : Bool) (omitted : α → Bool) (codec : Codec α) (get : σ → α)
    (set : α → σ → σ) : Field σ where
  key := key
  isRequired := isRequired
  read depth d := (codec.read depth d).map set
  write x := if omitted (get x) then none else some (codec.write (get x))

def required (key : Text) (codec : Codec α) (get : σ → α) (set : α → σ → σ) : Field σ :=
  of key true (fun _ => false) codec get set

def defaulted (key : Text) (codec : Codec α) (get : σ → α) (set : α → σ → σ) : Field σ :=
  of key false (fun _ => false) codec get set

/-- A list or text that may be missing and is left out if it is empty. -/
def unlessEmpty (key : Text) (codec : Codec (List α)) (get : σ → List α)
    (set : List α → σ → σ) : Field σ :=
  of key false List.isEmpty codec get set

/-- A map that may be missing and is left out if it is empty. -/
def unlessEmptyMap (key : Text) (codec : Codec (OrderedMap Text α)) (get : σ → OrderedMap Text α)
    (set : OrderedMap Text α → σ → σ) : Field σ :=
  of key false OrderedMap.isEmpty codec get set

/-- A value that may be missing or null and is left out if there is none. -/
def optional (key : Text) (codec : Codec α) (get : σ → Option α) (set : Option α → σ → σ) :
    Field σ :=
  of key false Option.isNone (.optional codec) get set

end Field

/-- A record type: the record that is read from nothing, and the fields in order. -/
structure Shape (σ : Type) where
  blank : σ
  fields : List (Field σ)

namespace Shape

variable {σ : Type}

def write (shape : Shape σ) (x : σ) : Json :=
  .object (shape.fields.filterMap (fun f => (f.write x).map (fun v => (f.key, v))))

/-- Changes a record by the members of an object; `seen` are the keys met before. -/
def readMembers (fields : List (Field σ)) (depth : Nat) :
    (seen : List Text) → σ → List (Quoted × Draft) → Except Fault (List Text × σ)
  | seen, x, [] => .ok (seen, x)
  | seen, x, (q, d) :: ms => do
    let key ← q.text
    match fields.find? (fun f => decide (f.key = key)) with
    | none =>
      closing d.fault? ()
      readMembers fields depth seen x ms
    | some f =>
      if key ∈ seen then .error .mismatch
      else
        let change ← f.read depth d
        readMembers fields depth (key :: seen) (change x) ms

def readItems (depth : Nat) (stop : Option Fault) :
    List (Field σ) → σ → List Draft → Except Fault σ
  | [], x, [] => closing stop x
  | [], _, _ :: _ => .error .malformed
  | f :: fs, x, [] => do
    closing stop ()
    if (f :: fs).any Field.isRequired then .error .mismatch else .ok x
  | f :: fs, x, d :: ds => do
    let change ← f.read depth d
    readItems depth stop fs (change x) ds

def read (shape : Shape σ) : Reader σ := fun depth d =>
  match d with
  | .object ms stop => opening depth fun depth => do
    let (seen, x) ← readMembers shape.fields depth [] shape.blank ms
    closing stop ()
    if shape.fields.all (fun f => !f.isRequired || decide (f.key ∈ seen)) then .ok x
    else .error .mismatch
  | .array ds stop => opening depth fun depth =>
    readItems depth stop shape.fields shape.blank ds
  | d => .error (wrongKind d)

def codec (shape : Shape σ) : Codec σ := ⟨shape.read, shape.write⟩

end Shape

end ApiAnnotations.Json

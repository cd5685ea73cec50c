import ApiAnnotations.Json.Record
import ApiAnnotations.Proofs.Json.Reader
import Mathlib.Data.List.Basic

/-! # Reading records back

A record is read by changing the blank record field by field. A field restores its value if reading
what was written sets it, or if it was left out and the blank record has the value already.

* `Field.ReadAll` : what reading members for some of the fields, in their order, comes to.
* `Shape.read_object` : a record is read from an object as its fields are.
* `Shape.readsBack` : a record is read back if its fields restore their values one after another.
* `Shape.yields` : what holds of the blank record, and is kept by the fields, holds of every record
  that is read. -/

namespace ApiAnnotations.Json

open Draft (ofTree ofMembers)

variable {σ α : Type} {depth : Nat}

/-! ## Restoring fields -/

/-- Reading what `f` writes of `x` changes `y` into `z`. -/
structure Field.Restores (f : Field σ) (depth : Nat) (x y z : σ) : Prop where
  omitted : f.write x = none → f.isRequired = false ∧ z = y
  written : ∀ v ∈ f.write x, ∃ change, f.read depth (ofTree v) = .ok change ∧ z = change y

/-- The fields restore what they write of `x`, one after another, which changes `y` into `z`. -/
inductive Field.RestoreAll (depth : Nat) (x : σ) : List (Field σ) → σ → σ → Prop
  | nil {y : σ} : RestoreAll depth x [] y y
  | cons {f : Field σ} {fs : List (Field σ)} {y z w : σ} (head : f.Restores depth x y z)
      (tail : RestoreAll depth x fs z w) : RestoreAll depth x (f :: fs) y w

/-- Reading the members, for some of the fields in their order, changes `y` into a record, or stops
at a fault. -/
inductive Field.ReadAll (depth : Nat) :
    List (Field σ) → List (Text × Json) → σ → Except Fault σ → Prop
  | nil {y : σ} : ReadAll depth [] [] y (.ok y)
  | absent {f : Field σ} {fs : List (Field σ)} {ms : List (Text × Json)} {y : σ}
      {r : Except Fault σ} (hoptional : f.isRequired = false) (tail : ReadAll depth fs ms y r) :
      ReadAll depth (f :: fs) ms y r
  | present {f : Field σ} {fs : List (Field σ)} {v : Json} {ms : List (Text × Json)} {y : σ}
      {r : Except Fault σ} {change : σ → σ} (hread : f.read depth (ofTree v) = .ok change)
      (tail : ReadAll depth fs ms (change y) r) : ReadAll depth (f :: fs) ((f.key, v) :: ms) y r
  | fault {f : Field σ} {fs : List (Field σ)} {v : Json} {ms : List (Text × Json)} {y : σ}
      {e : Fault} (hread : f.read depth (ofTree v) = .error e) :
      ReadAll depth (f :: fs) ((f.key, v) :: ms) y (.error e)

namespace Field

variable {key : Text} {c : Codec α} {get : σ → α} {set : α → σ → σ} {x y : σ}

theorem restores_of {isRequired : Bool} {omitted : α → Bool} (hc : c.ReadsBack depth (get x))
    (homitted : omitted (get x) = true → isRequired = false ∧ set (get x) y = y) :
    (of key isRequired omitted c get set).Restores depth x y (set (get x) y) := by
  constructor
  · intro hnone
    by_cases h : omitted (get x) = true
    · exact homitted h
    · exact absurd hnone (by simp [of, h])
  · intro v hv
    by_cases h : omitted (get x) = true
    · exact absurd hv (by simp [of, h])
    · obtain rfl : c.write (get x) = v := by simpa [of, h] using hv
      refine ⟨set (get x), ?_, rfl⟩
      change (c.read depth (ofTree (c.write (get x)))).map set = .ok (set (get x))
      rw [hc]
      rfl

theorem restores_required (hc : c.ReadsBack depth (get x)) :
    (required key c get set).Restores depth x y (set (get x) y) :=
  restores_of hc nofun

theorem restores_defaulted (hc : c.ReadsBack depth (get x)) :
    (defaulted key c get set).Restores depth x y (set (get x) y) :=
  restores_of hc nofun

theorem restores_unlessEmpty {c : Codec (List α)} {get : σ → List α} {set : List α → σ → σ}
    (hc : c.ReadsBack depth (get x)) (hy : set [] y = y) :
    (unlessEmpty key c get set).Restores depth x y (set (get x) y) := by
  refine restores_of hc fun h => ⟨rfl, ?_⟩
  rw [List.isEmpty_iff.mp h, hy]

theorem restores_unlessEmptyMap {c : Codec (OrderedMap Text α)} {get : σ → OrderedMap Text α}
    {set : OrderedMap Text α → σ → σ} (hc : c.ReadsBack depth (get x)) (hy : set ∅ y = y) :
    (unlessEmptyMap key c get set).Restores depth x y (set (get x) y) := by
  refine restores_of hc fun h => ⟨rfl, ?_⟩
  rw [OrderedMap.isEmpty_iff.mp h, hy]

theorem restores_optional {get : σ → Option α} {set : Option α → σ → σ}
    (hnull : ∀ a, ofTree (c.write a) ≠ .null) (hc : ∀ a ∈ get x, c.ReadsBack depth a)
    (hy : set none y = y) : (optional key c get set).Restores depth x y (set (get x) y) := by
  refine restores_of (readsBack_optional (fun a _ => hnull a) hc) fun h => ⟨rfl, ?_⟩
  rw [Option.isNone_iff_eq_none.mp h, hy]

end Field

namespace Shape

/-- The members written for fields. -/
def membersOf (fs : List (Field σ)) (x : σ) : List (Text × Json) :=
  fs.filterMap fun f => (f.write x).map fun v => (f.key, v)

theorem membersOf_cons (f : Field σ) (fs : List (Field σ)) (x : σ) :
    membersOf (f :: fs) x =
      ((f.write x).map fun v => (f.key, v)).toList ++ membersOf fs x := by
  rw [membersOf, List.filterMap_cons]
  cases f.write x with
  | none => rfl
  | some v => rfl

theorem find?_key {fields : List (Field σ)} (hkeys : (fields.map Field.key).Nodup) {f : Field σ}
    (hf : f ∈ fields) : fields.find? (fun g => decide (g.key = f.key)) = some f := by
  induction fields with
  | nil => exact absurd hf List.not_mem_nil
  | cons g fs ih =>
    obtain ⟨hg, hfs⟩ := List.nodup_cons.mp hkeys
    rcases List.mem_cons.mp hf with rfl | hf
    · simp
    · have hne : g.key ≠ f.key := fun h => hg (h ▸ List.mem_map_of_mem hf)
      rw [List.find?_cons_of_neg (by simpa using hne)]
      exact ih hfs hf

/-- The member written for a field is read by this field. -/
theorem readMembers_cons {fields : List (Field σ)} (hkeys : (fields.map Field.key).Nodup)
    {f : Field σ} (hf : f ∈ fields) {seen : List Text} (hseen : f.key ∉ seen) {d : Draft}
    {change : σ → σ} (hread : f.read depth d = .ok change) (y : σ) (ms : List (Quoted × Draft)) :
    readMembers fields depth seen y ((.ofText f.key, d) :: ms) =
      readMembers fields depth (f.key :: seen) (change y) ms := by
  rw [readMembers, Quoted.text_ofText, ok_bind, find?_key hkeys hf]
  simp only [if_neg hseen, hread, ok_bind]

/-- Members are read by their fields one after another, and no required key is missed. -/
theorem readMembers_of_readAll {fields fs : List (Field σ)} {ms : List (Text × Json)} {y : σ}
    {r : Except Fault σ} (hkeys : (fields.map Field.key).Nodup)
    (h : Field.ReadAll depth fs ms y r) (hfs : fs.Sublist fields) (seen : List Text)
    (hseen : ∀ f ∈ fs, f.key ∉ seen) :
    ∃ seen', readMembers fields depth seen y (ofMembers ms) = r.map (seen', ·) ∧
      (∀ k ∈ seen, k ∈ seen') ∧ ∀ f ∈ fs, f.isRequired = true → f.key ∈ seen' := by
  induction h generalizing seen with
  | nil => exact ⟨seen, rfl, fun _ hk => hk, nofun⟩
  | @absent f fs ms y r hoptional _ ih =>
    obtain ⟨seen', hread, hkept, hrequired⟩ :=
      ih ((List.sublist_cons_self f fs).trans hfs) seen (List.forall_mem_cons.mp hseen).2
    refine ⟨seen', hread, hkept, List.forall_mem_cons.mpr ⟨fun hreq => ?_, hrequired⟩⟩
    exact absurd (hoptional.symm.trans hreq) Bool.false_ne_true
  | @present f fs v ms y r change hchange _ ih =>
    obtain ⟨hnew, hrest⟩ := List.forall_mem_cons.mp hseen
    have hother : ∀ g ∈ fs, g.key ∉ f.key :: seen := by
      intro g hg hmem
      rcases List.mem_cons.mp hmem with heq | hmem
      · have hnodup := (hfs.map Field.key).nodup hkeys
        exact (List.nodup_cons.mp hnodup).1 (heq ▸ List.mem_map_of_mem hg)
      · exact hrest g hg hmem
    obtain ⟨seen', hread, hkept, hrequired⟩ :=
      ih ((List.sublist_cons_self f fs).trans hfs) (f.key :: seen) hother
    refine ⟨seen', ?_, fun k hk => hkept k (List.mem_cons_of_mem _ hk),
      List.forall_mem_cons.mpr ⟨fun _ => hkept _ List.mem_cons_self, hrequired⟩⟩
    exact (readMembers_cons hkeys (hfs.subset List.mem_cons_self) hnew hchange ..).trans hread
  | @fault f fs v ms y e hread =>
    refine ⟨seen ++ (f :: fs).map Field.key, ?_, fun k hk => List.mem_append_left _ hk,
      fun g hg _ => List.mem_append_right _ (List.mem_map_of_mem hg)⟩
    rw [ofMembers, readMembers, Quoted.text_ofText, ok_bind,
      find?_key hkeys (hfs.subset List.mem_cons_self)]
    simp only [if_neg (hseen f List.mem_cons_self), hread]
    rfl

/-- **A record is read from an object** as its fields are read from the members. -/
theorem read_object {shape : Shape σ} {ms : List (Text × Json)} {r : Except Fault σ}
    (hkeys : (shape.fields.map Field.key).Nodup)
    (h : Field.ReadAll depth shape.fields ms shape.blank r) :
    shape.read (depth + 1) (ofTree (.object ms)) = r := by
  obtain ⟨seen, hread, -, hrequired⟩ := readMembers_of_readAll hkeys h (List.Sublist.refl _) []
    fun _ _ => List.not_mem_nil
  have hall : (shape.fields.all fun f => !f.isRequired || decide (f.key ∈ seen)) = true := by
    rw [List.all_eq_true]
    intro f hf
    cases hreq : f.isRequired with
    | false => rfl
    | true => simpa using hrequired f hf hreq
  rw [ofTree, read, opening, hread]
  cases r with
  | error e => rfl
  | ok x => exact if_pos hall

/-- The members written for fields are read as the fields restore the record. -/
theorem readAll_membersOf {fs : List (Field σ)} {x y z : σ}
    (h : Field.RestoreAll depth x fs y z) :
    Field.ReadAll depth fs (membersOf fs x) y (.ok z) := by
  induction h with
  | nil => exact .nil
  | @cons f fs y z w hf _ ih =>
    cases hwrite : f.write x with
    | none =>
      obtain ⟨hoptional, rfl⟩ := hf.omitted hwrite
      rw [membersOf_cons, hwrite]
      exact .absent hoptional ih
    | some v =>
      obtain ⟨change, hchange, rfl⟩ := hf.written v hwrite
      rw [membersOf_cons, hwrite]
      exact .present hchange ih

/-- **A record is read back** if its fields restore it from the blank record. -/
theorem readsBack {shape : Shape σ} {x : σ} (hkeys : (shape.fields.map Field.key).Nodup)
    (h : Field.RestoreAll depth x shape.fields shape.blank x) :
    shape.codec.ReadsBack (depth + 1) x :=
  read_object hkeys (readAll_membersOf h)

end Shape

/-! ## Deleted members -/

/-- The members whose keys are not deleted. -/
def without (deleted : Text → Bool) (ms : List (Text × Json)) : List (Text × Json) :=
  ms.filter fun m => !deleted m.1

namespace Field.ReadAll

variable {key : Text} {omitted : α → Bool} {c : Codec α} {get : σ → α} {set : α → σ → σ}
  {deleted : Text → Bool} {fs : List (Field σ)} {v : Json} {ms : List (Text × Json)} {y : σ}

/-- A member sets the value of its field, unless it is deleted. -/
theorem without_bind {r : α → Except Fault σ} (hget : set (get y) y = y)
    (tail : ∀ a, (if deleted key then .ok (get y) else c.read depth (ofTree v)) = .ok a →
      ReadAll depth fs (without deleted ms) (set a y) (r a)) :
    ReadAll depth (of key false omitted c get set :: fs) (without deleted ((key, v) :: ms)) y
      ((if deleted key then .ok (get y) else c.read depth (ofTree v)) >>= r) := by
  cases hdeleted : deleted key with
  | true =>
    have hms : without deleted ((key, v) :: ms) = without deleted ms :=
      List.filter_cons_of_neg (by simp [hdeleted])
    have htail := tail (get y) (if_pos hdeleted)
    rw [hget] at htail
    rw [hms]
    exact .absent rfl htail
  | false =>
    have hms : without deleted ((key, v) :: ms) = (key, v) :: without deleted ms :=
      List.filter_cons_of_pos (by simp [hdeleted])
    have hfield : (of key false omitted c get set).read depth (ofTree v) =
        (c.read depth (ofTree v)).map set := rfl
    rw [hms, if_neg Bool.false_ne_true]
    rw [hdeleted, if_neg Bool.false_ne_true] at tail
    cases hread : c.read depth (ofTree v) with
    | error e => exact .fault (hfield.trans (by rw [hread]; rfl))
    | ok a => exact .present (hfield.trans (by rw [hread]; rfl)) (tail a hread)

theorem without_cons {a : α} {r : Except Fault σ} (hread : c.read depth (ofTree v) = .ok a)
    (hget : set (get y) y = y)
    (tail : ReadAll depth fs (without deleted ms) (set (if deleted key then get y else a) y) r) :
    ReadAll depth (of key false omitted c get set :: fs) (without deleted ((key, v) :: ms)) y
      r := by
  have hvalue : (if deleted key then .ok (get y) else c.read depth (ofTree v)) =
      .ok (if deleted key then get y else a) := by
    rw [hread]
    split <;> rfl
  have h : ReadAll depth (of key false omitted c get set :: fs) (without deleted ((key, v) :: ms)) y
      ((if deleted key then .ok (get y) else c.read depth (ofTree v)) >>= fun _ => r) :=
    without_bind hget fun b hb => by
      obtain rfl := Except.ok.inj (hvalue.symm.trans hb)
      exact tail
  rw [hvalue] at h
  exact h

/-- The last member may be one that cannot be read. -/
theorem without_last (hget : set (get y) y = y) :
    ReadAll depth [of key false omitted c get set] (without deleted [(key, v)]) y
      ((if deleted key then .ok (get y) else c.read depth (ofTree v)) >>= fun a => .ok (set a y)) :=
  without_bind hget fun _ _ => .nil

end Field.ReadAll

/-! ## What records read from a text are -/

/-- A field keeps a property of records: reading a value of it leaves it true. -/
def Field.Keeps (P : σ → Prop) (depth : Nat) (f : Field σ) : Prop :=
  f.read.Yields depth fun change => ∀ x, P x → P (change x)

namespace Field

variable {key : Text} {isRequired : Bool} {omitted : α → Bool} {c : Codec α} {get : σ → α}
  {set : α → σ → σ} {P : σ → Prop}

theorem keeps_of {Q : α → Prop} (hc : c.read.Yields depth Q)
    (hset : ∀ a x, Q a → P x → P (set a x)) :
    (of key isRequired omitted c get set).Keeps P depth := by
  intro d change h
  obtain ⟨a, ha, rfl⟩ := map_eq_ok_iff.mp h
  exact fun x hx => hset a x (hc d a ha) hx

/-- A field that the property does not speak of. -/
theorem keeps_other (hset : ∀ a x, P x → P (set a x)) :
    (of key isRequired omitted c get set).Keeps P depth :=
  keeps_of (Q := fun _ => True) (fun _ _ _ => trivial) fun a x _ hx => hset a x hx

end Field

namespace Shape

variable {P : σ → Prop}

theorem readMembers_keeps {fields : List (Field σ)} (h : ∀ f ∈ fields, f.Keeps P depth)
    {seen seen' : List Text} {x y : σ} {ms : List (Quoted × Draft)} (hx : P x)
    (hread : readMembers fields depth seen x ms = .ok (seen', y)) : P y := by
  induction ms generalizing seen x with
  | nil =>
    cases hread
    exact hx
  | cons m ms ih =>
    rw [readMembers] at hread
    obtain ⟨key, -, hread⟩ := bind_eq_ok_iff.mp hread
    split at hread
    · obtain ⟨-, -, hread⟩ := bind_eq_ok_iff.mp hread
      exact ih hx hread
    · next f hf =>
      split at hread
      · cases hread
      · obtain ⟨change, hchange, hread⟩ := bind_eq_ok_iff.mp hread
        exact ih (h f (List.mem_of_find?_eq_some hf) m.2 change hchange x hx) hread

theorem readItems_keeps {stop : Option Fault} {fs : List (Field σ)}
    (h : ∀ f ∈ fs, f.Keeps P depth) {x y : σ} {ds : List Draft} (hx : P x)
    (hread : readItems depth stop fs x ds = .ok y) : P y := by
  induction fs generalizing x ds with
  | nil =>
    cases ds with
    | nil =>
      obtain ⟨-, rfl⟩ := closing_eq_ok_iff.mp hread
      exact hx
    | cons d ds => cases hread
  | cons f fs ih =>
    obtain ⟨hf, hfs⟩ := List.forall_mem_cons.mp h
    cases ds with
    | nil =>
      obtain ⟨-, -, hread⟩ := bind_eq_ok_iff.mp hread
      split at hread
      · cases hread
      · cases hread
        exact hx
    | cons d ds =>
      obtain ⟨change, hchange, hread⟩ := bind_eq_ok_iff.mp hread
      exact ih hfs (hf d change hchange x hx) hread

/-- **What the blank record has and all fields keep** holds of every record that is read. -/
theorem yields {shape : Shape σ} (hblank : P shape.blank)
    (hfields : shape.fields.Forall (Field.Keeps P depth)) :
    shape.read.Yields (depth + 1) P := by
  rw [List.forall_iff_forall_mem] at hfields
  intro d x hread
  cases d with
  | object ms stop =>
    obtain ⟨⟨seen, y⟩, hmembers, hread⟩ := bind_eq_ok_iff.mp hread
    obtain ⟨-, -, hread⟩ := bind_eq_ok_iff.mp hread
    have hy := readMembers_keeps hfields hblank hmembers
    split at hread
    · cases hread
      exact hy
    · cases hread
  | array ds stop => exact readItems_keeps hfields hblank hread
  | _ => cases hread

end Shape

end ApiAnnotations.Json

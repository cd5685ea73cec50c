import ApiAnnotations.OrderedMap
import ApiAnnotations.Route.Param
import Mathlib.Data.List.Infix
import Mathlib.Data.List.TakeWhile

/-! # The modifiers of a parameter

The words between the type and the description of a parameter are a window of at most two words in
the form of modifiers. A word behind the window is description, whatever it looks like.

* `ParamLocation.names` : the locations that a modifier can name.
* `Modifier.denotes_ofWord?` : what a word denotes.
* `IsWindow slots ws window` : the window at the beginning of words; `window` computes it.
* `readModifiers_eq` : the first location in the window that is unknown is the error; otherwise the
  last modifier of each kind counts.
* `Param.parse_exact` : the argument of a parameter. -/

namespace ApiAnnotations

/-! ## One word -/

namespace ParamLocation

/-- The locations by name. -/
def names : List (Text × ParamLocation) :=
  [("path".toList, .path), ("query".toList, .query), ("form".toList, .form),
    ("header".toList, .header), ("body".toList, .body)]

theorem ofName?_eq_find? (name : Text) : ofName? name = OrderedMap.find? name names := by
  unfold ofName? names
  iterate 5 refine if_congr eq_comm rfl ?_
  rfl

end ParamLocation

namespace Modifier

/-- The name behind `in:`. -/
def locationName? (word : Text) : Option Text := Text.stripStart? "in:".toList word

/-- The location behind `in:`, if there is one of that name. -/
def location? (word : Text) : Option ParamLocation :=
  (locationName? word).bind fun name => OrderedMap.find? name ParamLocation.names

/-- What a word says about a parameter being required. -/
def required? (word : Text) : Option Bool :=
  if word = "required".toList then some true
  else if word = "optional".toList then some false
  else none

/-- A word in the form of a modifier; a location that it names may be unknown. -/
def IsForm (word : Text) : Prop :=
  word = "required".toList ∨ word = "optional".toList ∨ Text.startsWith "in:".toList word = true

instance (word : Text) : Decidable (IsForm word) := inferInstanceAs (Decidable (_ ∨ _ ∨ _))

inductive Denotes (word : Text) : Except GrammarError (Option Modifier) → Prop
  | unknown {name : Text} (hname : locationName? word = some name)
      (hlocation : OrderedMap.find? name ParamLocation.names = none) :
      Denotes word (.error (.unknownLocation name))
  | location {name : Text} {l : ParamLocation} (hname : locationName? word = some name)
      (hlocation : OrderedMap.find? name ParamLocation.names = some l) :
      Denotes word (.ok (some (.location l)))
  | required {b : Bool} (hname : locationName? word = none) (hrequired : required? word = some b) :
      Denotes word (.ok (some (.required b)))
  | nothing (hname : locationName? word = none) (hrequired : required? word = none) :
      Denotes word (.ok none)

/-- **What a word denotes** as a modifier. -/
theorem denotes_ofWord? (word : Text) : Denotes word (ofWord? word) := by
  cases hname : locationName? word with
  | some name =>
    cases hlocation : OrderedMap.find? name ParamLocation.names with
    | none =>
      have h : ofWord? word = .error (.unknownLocation name) := by
        rw [ofWord?, show Text.stripStart? _ word = some name from hname]
        simp only [ParamLocation.ofName?_eq_find?, hlocation]
      exact h ▸ .unknown hname hlocation
    | some l =>
      have h : ofWord? word = .ok (some (.location l)) := by
        rw [ofWord?, show Text.stripStart? _ word = some name from hname]
        simp only [ParamLocation.ofName?_eq_find?, hlocation]
      exact h ▸ .location hname hlocation
  | none =>
    have h : ofWord? word = .ok ((required? word).map .required) := by
      rw [ofWord?, show Text.stripStart? _ word = none from hname, required?]
      split_ifs <;> rfl
    rw [h]
    cases hrequired : required? word with
    | none => exact .nothing hname hrequired
    | some b => exact .required hname hrequired

theorem startsWith_iff_locationName? {word : Text} :
    Text.startsWith "in:".toList word = true ↔ (locationName? word).isSome = true := by
  rw [Text.startsWith_iff, Option.isSome_iff_exists]
  simp only [locationName?, Text.stripStart?_eq_some_iff]

theorem isForm_iff {word : Text} :
    IsForm word ↔ (locationName? word).isSome = true ∨ (required? word).isSome = true := by
  rw [IsForm, startsWith_iff_locationName?, required?]
  split_ifs with hrequired hoptional
  · simp only [hrequired, true_or, Option.isSome_some, or_true]
  · simp only [hoptional, true_or, Option.isSome_some, or_true]
  · simp only [hrequired, hoptional, false_or, Option.isSome_none, Bool.false_eq_true, or_false]

theorem isForm_of_locationName? {word name : Text} (h : locationName? word = some name) :
    IsForm word :=
  isForm_iff.mpr (.inl (by rw [h]; rfl))

theorem isForm_of_required? {word : Text} {b : Bool} (h : required? word = some b) :
    IsForm word :=
  isForm_iff.mpr (.inr (by rw [h]; rfl))

theorem required?_of_locationName? {word name : Text} (h : locationName? word = some name) :
    required? word = none := by
  obtain rfl := Text.stripStart?_eq_some_iff.mp h
  rfl

end Modifier

/-! ## The window -/

namespace Param

open Modifier (IsForm)

/-- The longest beginning of the words that has at most `slots` words, all of them in the form of
modifiers. -/
structure IsWindow (slots : Nat) (ws window : List Text) : Prop where
  beginning : window <+: ws
  length_le : window.length ≤ slots
  isForm : ∀ w ∈ window, IsForm w
  longest : ∀ other, other <+: ws → other.length ≤ slots → (∀ w ∈ other, IsForm w) →
    other.length ≤ window.length

def window (slots : Nat) (ws : List Text) : List Text :=
  (ws.take slots).takeWhile fun w => decide (IsForm w)

theorem isWindow_window (slots : Nat) (ws : List Text) : IsWindow slots ws (window slots ws) := by
  have htaken : window slots ws <+: ws.take slots := List.takeWhile_prefix _
  constructor
  case beginning => exact htaken.trans (List.take_prefix slots ws)
  case length_le => exact htaken.length_le.trans (List.length_take_le slots ws)
  case isForm =>
    intro w hw
    exact of_decide_eq_true (List.mem_takeWhile_imp (p := fun w => decide (IsForm w)) hw)
  case longest =>
    intro other hother hlength hforms
    -- The window goes through all of `other`, since nothing in it ends a window.
    obtain ⟨rest, hrest⟩ := List.prefix_take_iff.mpr ⟨hother, hlength⟩
    have hwindow : window slots ws = other ++ rest.takeWhile fun w => decide (IsForm w) := by
      rw [window, ← hrest, List.takeWhile_append_of_pos fun w hw => decide_eq_true (hforms w hw)]
    rw [hwindow, List.length_append]
    exact Nat.le_add_right ..

/-- The window is determined by the words. -/
theorem IsWindow.unique {slots : Nat} {ws xs ys : List Text} (hx : IsWindow slots ws xs)
    (hy : IsWindow slots ws ys) : xs = ys := by
  have hle := hy.longest xs hx.beginning hx.length_le hx.isForm
  have hge := hx.longest ys hy.beginning hy.length_le hy.isForm
  have hprefix := List.prefix_of_prefix_length_le hx.beginning hy.beginning hle
  exact hprefix.eq_of_length (Nat.le_antisymm hle hge)

theorem window_cons (slots : Nat) (w : Text) (ws : List Text) :
    window (slots + 1) (w :: ws) = if IsForm w then w :: window slots ws else [] := by
  simp [window, List.takeWhile_cons]

/-- The names of locations in a window that are unknown, in order. -/
def unknownLocations (window : List Text) : List Text :=
  (window.filterMap Modifier.locationName?).filter fun name =>
    (OrderedMap.find? name ParamLocation.names).isNone

/-- The parameter with the last modifier of each kind. -/
def modified (p : Param) (window : List Text) : Param :=
  { p with
    location := (window.filterMap Modifier.location?).getLast?.getD p.location
    required := (window.filterMap Modifier.required?).getLast?.getD p.required }

theorem modified_location {w name : Text} {l : ParamLocation} (p : Param) (window : List Text)
    (hname : Modifier.locationName? w = some name)
    (hlocation : OrderedMap.find? name ParamLocation.names = some l) :
    p.modified (w :: window) = ((Modifier.location l).apply p).modified window := by
  have hl : Modifier.location? w = some l := by
    rw [Modifier.location?, hname, Option.bind_some, hlocation]
  simp [modified, Modifier.apply, hl, Modifier.required?_of_locationName? hname, List.getLast?_cons]

theorem modified_required {w : Text} {b : Bool} (p : Param) (window : List Text)
    (hname : Modifier.locationName? w = none) (hrequired : Modifier.required? w = some b) :
    p.modified (w :: window) = ((Modifier.required b).apply p).modified window := by
  have hl : Modifier.location? w = none := by rw [Modifier.location?, hname, Option.bind_none]
  simp [modified, Modifier.apply, hl, hrequired, List.getLast?_cons]

/-- **The modifiers that are read** are those of the window. -/
theorem readModifiers_eq (slots : Nat) (p : Param) (ws : List Text) :
    readModifiers slots p ws =
      match (unknownLocations (window slots ws)).head? with
      | some name => .error (.unknownLocation name)
      | none => .ok (p.modified (window slots ws), ws.drop (window slots ws).length) := by
  -- The parameter is general because it carries the modifiers of the words read so far.
  induction slots generalizing p ws with
  | zero => rfl
  | succ slots ih =>
    cases ws with
    | nil => rfl
    | cons w ws =>
      have hdenotes := Modifier.denotes_ofWord? w
      rw [readModifiers, window_cons]
      generalize Modifier.ofWord? w = x at hdenotes
      cases hdenotes with
      | unknown hname hlocation =>
        have hform := Modifier.isForm_of_locationName? hname
        simp [hform, unknownLocations, hname, hlocation]
      | @location name l hname hlocation =>
        have hform := Modifier.isForm_of_locationName? hname
        have hunknown : unknownLocations (w :: window slots ws) =
            unknownLocations (window slots ws) := by
          simp [unknownLocations, hname, hlocation]
        simp only [if_pos hform, hunknown, ih, modified_location p _ hname hlocation,
          List.length_cons, List.drop_succ_cons]
      | @required b hname hrequired =>
        have hform := Modifier.isForm_of_required? hrequired
        have hunknown : unknownLocations (w :: window slots ws) =
            unknownLocations (window slots ws) := by
          simp [unknownLocations, hname]
        simp only [if_pos hform, hunknown, ih, modified_required p _ hname hrequired,
          List.length_cons, List.drop_succ_cons]
      | nothing hname hrequired =>
        have hform : ¬ IsForm w := by simp [Modifier.isForm_iff, hname, hrequired]
        rw [if_neg hform]
        rfl

/-! ## Arguments -/

theorem words_cases (argument : Text) :
    (Text.words argument).length < 2 ∨
      ∃ name type ws, Text.words argument = name :: type :: ws := by
  match Text.words argument with
  | [] => exact .inl Nat.zero_lt_two
  | [_] => exact .inl Nat.one_lt_two
  | name :: type :: ws => exact .inr ⟨name, type, ws, rfl⟩

theorem parse_of_length_lt {argument : Text} (h : (Text.words argument).length < 2) :
    parse argument = .error (.malformedParam argument) := by
  unfold parse
  split
  · next hwords =>
    simp only [hwords, List.length_cons] at h
    omega
  · rfl

/-- An argument with a name and a type is read by its window. -/
theorem parse_of_words {argument name type : Text} {ws : List Text}
    (h : Text.words argument = name :: type :: ws) :
    parse argument =
      match (unknownLocations (window modifierSlots ws)).head? with
      | some unknown => .error (.unknownLocation unknown)
      | none => .ok {
          (⟨name, .ofToken type, .query, true, []⟩ : Param).modified (window modifierSlots ws) with
          description := Text.unwords (ws.drop (window modifierSlots ws).length) } := by
  simp only [parse, h, readModifiers_eq]
  cases (unknownLocations (window modifierSlots ws)).head? with
  | none => rfl
  | some unknown => rfl

/-- **The argument of a parameter.**  It is malformed exactly if it has fewer than two words. The
others have a window: the first unknown location in it is the error; without one, the last modifier
of each kind counts and the words behind the window are the description. Only the words of an
argument count, except that a malformed one is shown as it is. -/
theorem parse_exact (argument : Text) :
    (parse argument = .error (.malformedParam argument) ↔ (Text.words argument).length < 2) ∧
    (∀ name type ws, Text.words argument = name :: type :: ws →
      ∃ window, IsWindow 2 ws window ∧
        (∀ unknown, parse argument = .error (.unknownLocation unknown) ↔
          (unknownLocations window).head? = some unknown) ∧
        (unknownLocations window = [] → parse argument = .ok {
          name := name
          type := .ofToken type
          location := (window.filterMap Modifier.location?).getLast?.getD .query
          required := (window.filterMap Modifier.required?).getLast?.getD true
          description := Text.unwords (ws.drop window.length) })) ∧
    ∀ other, Text.words other = Text.words argument →
      parse other = parse argument ∨
        parse other = .error (.malformedParam other) ∧
          parse argument = .error (.malformedParam argument) := by
  refine ⟨⟨fun h => ?_, parse_of_length_lt⟩, fun name type ws hwords => ?_, fun other hother => ?_⟩
  · obtain hlength | ⟨name, type, ws, hwords⟩ := words_cases argument
    · exact hlength
    · rw [parse_of_words hwords] at h
      split at h
      · cases h
      · cases h
  · refine ⟨window modifierSlots ws, isWindow_window 2 ws, fun unknown => ?_, fun hnone => ?_⟩
    · rw [parse_of_words hwords]
      cases (unknownLocations (window modifierSlots ws)).head? with
      | none => simp
      | some first => simp
    · rw [parse_of_words hwords, hnone]
      rfl
  · obtain hlength | ⟨name, type, ws, hwords⟩ := words_cases argument
    · exact .inr ⟨parse_of_length_lt (hother ▸ hlength), parse_of_length_lt hlength⟩
    · exact .inl (by rw [parse_of_words (hother.trans hwords), parse_of_words hwords])

/-- An unknown location in the window is the error, though a known one follows behind it. Behind a
window that repeats a modifier, an unknown location is description, like any other modifier. -/
theorem parse_exact_unknownLocation :
    parse "id int optional in:nowhere in:path" = .error (.unknownLocation "nowhere") ∧
    parse "id int in:path in:header optional in:nowhere" =
      .ok ⟨"id", .primitive .integer, .header, true, "optional in:nowhere"⟩ := by
  constructor
  · obtain ⟨shown, hshown, herror, -⟩ := (parse_exact "id int optional in:nowhere in:path").2.1
      "id" "int" ["optional", "in:nowhere", "in:path"] (by decide)
    obtain rfl : shown = ["optional".toList, "in:nowhere".toList] :=
      hshown.unique (isWindow_window 2 ["optional", "in:nowhere", "in:path"])
    exact (herror "nowhere").mpr (by decide)
  · obtain ⟨shown, hshown, -, hok⟩ :=
      (parse_exact "id int in:path in:header optional in:nowhere").2.1
        "id" "int" ["in:path", "in:header", "optional", "in:nowhere"] (by decide)
    obtain rfl : shown = ["in:path".toList, "in:header".toList] :=
      hshown.unique (isWindow_window 2 ["in:path", "in:header", "optional", "in:nowhere"])
    exact (hok (by decide)).trans (by decide)

end Param

end ApiAnnotations

import ApiAnnotations.Proofs.ReadRecords
import Mathlib.Data.List.Basic

/-! # Arguments that are rejected

A line with a parameter, a response or a tag list that cannot be read counts as little for a route
as a line that names no directive: the route is read from the arguments it accepts and from the text
above the first directive.

* `Route.accepted` : the arguments a route is read from; `parse_congr` says that nothing else of a
  table matters but the preamble.
* `Directive.IsIdle` : lines without such an argument; `accepted_insert` leaves one out.
* `parse_exchange`, `parse_insert` : such a line can be replaced, or left out.
* `Route.parse_of_rejected` puts them together. -/

namespace ApiAnnotations

/-! ## Arguments -/

namespace Route

/-- Whether a route takes the argument of a directive. -/
def accepts : Directive → Text → Bool
  | .param, a => (Param.parse a).isOk
  | .response, a => (Response.parse a).isOk
  | .tag, a => (parseTagList a).isOk
  | _, _ => true

/-- The arguments of a directive that a route takes. -/
def accepted (table : DirectiveTable) (d : Directive) : List Text :=
  (table.arguments d).filter (accepts d)

theorem filterMap_filter_isOk {α ε : Type} (read : Text → Except ε α) (as : List Text) :
    (as.filter fun a => (read a).isOk).filterMap (fun a => (read a).toOption) =
      as.filterMap fun a => (read a).toOption := by
  rw [List.filterMap_filter]
  refine List.filterMap_congr fun a _ => ?_
  cases read a with
  | error e => rfl
  | ok b => rfl

theorem head?_accepted_of_true {table : DirectiveTable} {d : Directive}
    (h : ∀ a, accepts d a = true) : (accepted table d).head? = table.first? d := by
  rw [accepted, List.filter_eq_self.mpr fun a _ => h a]
  rfl

/-- **A route is read** from the accepted arguments and from the preamble. -/
theorem parse_congr {table table' : DirectiveTable}
    (harguments : ∀ d, accepted table d = accepted table' d)
    (hpreamble : table.preamble = table'.preamble) (place : Place) :
    parse table place = parse table' place := by
  -- No argument of `@route` or `@description` is rejected, so the first ones are accepted.
  have hroute : table.first? .route = table'.first? .route := by
    rw [← head?_accepted_of_true fun _ => rfl, harguments, head?_accepted_of_true fun _ => rfl]
  have hdescription : table.description = table'.description := by
    rw [DirectiveTable.description, DirectiveTable.description,
      ← head?_accepted_of_true fun _ => rfl, harguments, head?_accepted_of_true fun _ => rfl,
      hpreamble]
  have hread : ∀ {α : Type} {d : Directive} (read : Text → Except GrammarError α),
      (∀ a, accepts d a = (read a).isOk) →
      (table.arguments d).filterMap (fun a => (read a).toOption) =
        (table'.arguments d).filterMap fun a => (read a).toOption := by
    intro α d read h
    rw [← filterMap_filter_isOk, ← filterMap_filter_isOk read (table'.arguments d)]
    simp only [← h]
    exact congrArg (List.filterMap _) (harguments d)
  have hsignature : signature table = signature table' := by
    rw [signature, signature, hroute]
  rw [parse, parse, hsignature, hdescription, hread Param.parse fun _ => rfl,
    hread Response.parse fun _ => rfl, hread parseTagList fun _ => rfl]

end Route

/-! ## Lines -/

namespace Directive

/-- A line with an argument that a route does not take. -/
def IsRejected (line : Text) : Prop :=
  ∃ d a, ofLine? line = some (d, a) ∧ Route.accepts d a = false

/-- A line written as a directive that names none. -/
def IsUnknown (line : Text) : Prop := isLine line = true ∧ ofLine? line = none

/-- A line without an argument that a route takes. -/
def IsIdle (line : Text) : Prop :=
  ∀ d a, ofLine? line = some (d, a) → Route.accepts d a = false

theorem IsRejected.isLine {line : Text} (h : IsRejected line) : isLine line = true := by
  obtain ⟨d, a, hline, -⟩ := h
  exact isLine_of_ofLine? hline

theorem IsRejected.isIdle {line : Text} (h : IsRejected line) : IsIdle line := by
  obtain ⟨d, a, hline, hrejected⟩ := h
  intro d' a' hline'
  obtain ⟨rfl, rfl⟩ := Prod.mk.inj (Option.some.inj (hline.symm.trans hline'))
  exact hrejected

theorem isIdle_of_ofLine? {line : Text} (h : ofLine? line = none) : IsIdle line := by
  intro d a hline
  rw [h] at hline
  cases hline

end Directive

/-! ## Routes -/

namespace Route

open Directive (IsIdle IsRejected IsUnknown isLine ofLine?)
open DirectiveTable (ofLines)

/-- A line without an argument that a route takes can be left out of the arguments. -/
theorem accepted_insert {l : Text} (hl : IsIdle l) (xs ys : List Text) (d : Directive) :
    accepted (ofLines (xs ++ l :: ys)) d = accepted (ofLines (xs ++ ys)) d := by
  cases hline : ofLine? l with
  | none => rw [accepted, DirectiveTable.arguments_insert hline, accepted]
  | some e =>
    -- The argument is among those of its own directive, and the filter drops it there.
    have hdropped : accepts e.1 e.2 = false := hl e.1 e.2 hline
    simp only [accepted, DirectiveTable.arguments_ofLines, List.filterMap_append,
      List.filterMap_cons, hline, List.filter_append, List.filter_cons, List.map_append]
    by_cases hd : e.1 = d
    · subst hd
      simp [hdropped]
    · simp [hd]

/-- Two such lines that both are written as directives can stand for each other. -/
theorem parse_exchange {k l : Text} (hk : IsIdle k) (hl : IsIdle l) (hkline : isLine k = true)
    (hlline : isLine l = true) (xs ys : List Text) (place : Place) :
    parse (ofLines (xs ++ k :: ys)) place = parse (ofLines (xs ++ l :: ys)) place := by
  apply parse_congr
  · intro d
    rw [accepted_insert hk, accepted_insert hl]
  · rw [DirectiveTable.preamble_insert xs hkline, DirectiveTable.preamble_insert xs hlline]

/-- Behind a line written as a directive, such a line can be left out. -/
theorem parse_insert {l : Text} (hl : IsIdle l) {xs : List Text} (hxs : ∃ x ∈ xs, isLine x = true)
    (ys : List Text) (place : Place) :
    parse (ofLines (xs ++ l :: ys)) place = parse (ofLines (xs ++ ys)) place := by
  apply parse_congr
  · exact accepted_insert hl xs ys
  · rw [DirectiveTable.preamble_append hxs, DirectiveTable.preamble_append hxs]

/-- The tags that a line gives a route. -/
def tagList? (line : Text) : Option (List Text) :=
  match ofLine? line with
  | some (.tag, a) => (parseTagList a).toOption
  | _ => none

theorem tagList?_of_isIdle {l : Text} (hl : IsIdle l) : tagList? l = none := by
  unfold tagList?
  split
  · next a hline =>
    have hrejected : (parseTagList a).isOk = false := hl .tag a hline
    cases hread : parseTagList a with
    | error e => rfl
    | ok ts => rw [hread] at hrejected; cases hrejected
  · rfl

theorem filterMap_tagList? (lines : List Text) :
    lines.filterMap tagList? =
      ((ofLines lines).arguments .tag).filterMap fun a => (parseTagList a).toOption := by
  rw [DirectiveTable.arguments_eq_filterMap, List.filterMap_filterMap]
  refine List.filterMap_congr fun l _ => ?_
  unfold tagList? Directive.argument?
  cases ofLine? l with
  | none => rfl
  | some e =>
    obtain ⟨d, a⟩ := e
    cases d <;> rfl

theorem tags_of_parse {lines : List Text} {place : Place} {r : Route}
    (h : parse (ofLines lines) place = .ok r) :
    r.tags = (lines.filterMap tagList?).getLast?.getD [] := by
  rw [(of_parse h).2.2.2, filterMap_tagList?]

/-- **Rejected arguments.**  A line with an argument that is rejected counts for a route as little as
a line that names no directive, and behind another line written as a directive as little as text or
no line at all. So the tags are those of the last tag list that can be read. No line that names no
directive becomes part of an argument. -/
theorem parse_of_rejected (xs ys : List Text) (place : Place) {b : Text} (hb : IsRejected b) :
    (∀ u, IsUnknown u →
      parse (ofLines (xs ++ [b] ++ ys)) place = parse (ofLines (xs ++ [u] ++ ys)) place) ∧
    ((∃ x ∈ xs, isLine x = true) →
      parse (ofLines (xs ++ [b] ++ ys)) place = parse (ofLines (xs ++ ys)) place ∧
      ∀ t, isLine t = false →
        parse (ofLines (xs ++ [b] ++ ys)) place = parse (ofLines (xs ++ [t] ++ ys)) place) ∧
    (∀ r, parse (ofLines (xs ++ [b] ++ ys)) place = .ok r →
      r.tags = ((xs ++ ys).filterMap tagList?).getLast?.getD []) ∧
    ∀ l, ofLine? l = none → ∀ d,
      (ofLines (xs ++ [l] ++ ys)).arguments d = (ofLines (xs ++ ys)).arguments d := by
  simp only [List.append_assoc, List.singleton_append]
  refine ⟨fun u hu => ?_, fun hxs => ⟨?_, fun t ht => ?_⟩, fun r hr => ?_, fun l hl d => ?_⟩
  · exact parse_exchange hb.isIdle (Directive.isIdle_of_ofLine? hu.2) hb.isLine hu.1 xs ys place
  · exact parse_insert hb.isIdle hxs ys place
  · have hidle := Directive.isIdle_of_ofLine? (Directive.ofLine?_of_not_isLine ht)
    rw [parse_insert hb.isIdle hxs, parse_insert hidle hxs]
  · rw [tags_of_parse hr, List.filterMap_append, List.filterMap_cons_none
      (tagList?_of_isIdle hb.isIdle), List.filterMap_append]
  · exact DirectiveTable.arguments_insert hl xs ys d

/-- The lines above a tag list without tags, -/
def petsAbove : List Text := ["Lists the pets", "@route List GET /pets", "@tag pets, animals"]

/-- and those below it. -/
def petsBelow : List Text := ["and more", "@param id int in:nowhere", "@return 200 []Pet The pets"]

theorem parse_of_rejected_pets :
    let b : Text := "@tags , ,"
    let place : Place := ⟨"pets.go", 7⟩
    IsRejected b ∧
    ((∀ u, IsUnknown u →
      parse (ofLines (petsAbove ++ [b] ++ petsBelow)) place =
        parse (ofLines (petsAbove ++ [u] ++ petsBelow)) place) ∧
    ((∃ x ∈ petsAbove, isLine x = true) →
      parse (ofLines (petsAbove ++ [b] ++ petsBelow)) place =
        parse (ofLines (petsAbove ++ petsBelow)) place ∧
      ∀ t, isLine t = false →
        parse (ofLines (petsAbove ++ [b] ++ petsBelow)) place =
          parse (ofLines (petsAbove ++ [t] ++ petsBelow)) place) ∧
    (∀ r, parse (ofLines (petsAbove ++ [b] ++ petsBelow)) place = .ok r →
      r.tags = ((petsAbove ++ petsBelow).filterMap tagList?).getLast?.getD []) ∧
    ∀ l, ofLine? l = none → ∀ d,
      (ofLines (petsAbove ++ [l] ++ petsBelow)).arguments d =
        (ofLines (petsAbove ++ petsBelow)).arguments d) ∧
    parse (ofLines (petsAbove ++ [b] ++ petsBelow)) place =
      .ok ⟨"List", "GET", "/pets", some "Lists the pets".toList, [],
        [⟨200, some ⟨"Pet", true⟩, "The pets"⟩], ["pets", "animals"], place⟩ := by
  intro b place
  have hb : IsRejected b := ⟨.tag, ", ,", by decide, by decide⟩
  exact ⟨hb, parse_of_rejected petsAbove petsBelow place hb, by decide +kernel⟩

end Route

end ApiAnnotations

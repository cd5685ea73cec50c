import ApiAnnotations.Proofs.Annotation
import ApiAnnotations.Proofs.ModifierWindow

/-! # Records that are read

What holds of every record that is read, whatever the text it is read from. The parameters and the
responses are the ones that can be written as annotations; a route or a model may have a description
that cannot.

* `Param.wellFormed_of_parse`, `Response.wellFormed_of_parse` : arguments that are read.
* `IsTag`, `isTag_of_parseTagList` : the tags of a list.
* `Route.of_parse`, `Model.of_parse` : the parts of a record that is read.
* `FileRecords.sound_ofSource` : names are words and parts are as above, in all records of a
  file. -/

namespace ApiAnnotations

open Text (IsWord IsText words unwords)

/-! ## Parameters -/

theorem ParamType.wellFormed_ofToken {token : Text} (h : IsWord token) :
    (ofToken token).WellFormed := by
  rw [ofToken, firstOf?_order]
  cases hname : Primitive.ofName? token with
  | some p => exact trivial
  | none => exact ⟨h, hname⟩

namespace Param

/-- **A parameter that is read** can be written. -/
theorem wellFormed_of_parse {argument : Text} {p : Param} (h : parse argument = .ok p) :
    p.WellFormed := by
  have hwords : ∀ w ∈ words argument, IsWord w := fun w hw => Text.mem_words hw
  obtain hlength | ⟨name, type, ws, hcut⟩ := words_cases argument
  · rw [parse_of_length_lt hlength] at h
    cases h
  · rw [parse_of_words hcut] at h
    rw [hcut] at hwords
    split at h
    · cases h
    · obtain rfl := Except.ok.inj h
      refine ⟨hwords name List.mem_cons_self, ParamType.wellFormed_ofToken (hwords type (by simp)),
        _, fun w hw => ?_, rfl⟩
      exact hwords w (List.mem_cons_of_mem _ (List.mem_cons_of_mem _ (List.mem_of_mem_drop hw)))

end Param

/-! ## Responses -/

theorem SchemaRef.wellFormed_of_ofToken? {token : Text} (hword : IsWord token) {s : SchemaRef}
    (h : ofToken? token = some s) : s.WellFormed := by
  unfold ofToken? at h
  split at h
  · cases h
  · next hempty =>
    cases hstrip : Text.stripStart? "[]".toList token with
    | some name =>
      simp only [hstrip] at h
      split at h
      · cases h
      · next hname =>
        obtain rfl := Option.some.inj h
        rw [Text.stripStart?_eq_some_iff] at hstrip
        refine ⟨⟨by simpa using hname, fun c hc => ?_⟩, nofun⟩
        exact hword.2 c (hstrip ▸ List.mem_append_right _ hc)
    | none =>
      simp only [hstrip] at h
      split at h
      · cases h
      · obtain rfl := Option.some.inj h
        refine ⟨hword, fun _ => ⟨hempty, Bool.eq_false_iff.mpr fun hmark => ?_⟩⟩
        obtain ⟨rest, hrest⟩ := Text.startsWith_iff.mp hmark
        have hfound := Text.stripStart?_eq_some_iff.mpr hrest
        exact Option.some_ne_none rest (hfound.symm.trans hstrip)

theorem Text.Decimal.le_of_unsigned? {most n : Nat} {s : Text} (h : unsigned? most s = some n) :
    n ≤ most := by
  simp only [unsigned?] at h
  split at h
  · next hdigits =>
    rw [← Option.some.inj h]
    exact hdigits.2.2
  · cases h

/-- **A response that is read** can be written. -/
theorem Response.wellFormed_of_parse {argument : Text} {r : Response}
    (h : parse argument = .ok r) : r.WellFormed := by
  have hwords : ∀ w ∈ words argument, IsWord w := fun w hw => Text.mem_words hw
  unfold parse at h
  split at h
  · cases h
  · next code rest hcut =>
    rw [hcut] at hwords
    split at h
    · cases h
    · next n hcode =>
      obtain rfl := Except.ok.inj h
      refine ⟨Text.Decimal.le_of_unsigned? hcode, fun s hs => ?_, rest.tail, fun w hw => ?_, rfl⟩
      · obtain ⟨token, htoken, hs⟩ := Option.bind_eq_some_iff.mp hs
        exact SchemaRef.wellFormed_of_ofToken?
          (hwords token (List.mem_cons_of_mem _ (List.mem_of_mem_head? htoken))) hs
      · exact hwords w (List.mem_cons_of_mem _ (List.mem_of_mem_tail hw))

/-! ## Tags -/

/-- A nonempty text without commas and without blanks at its ends. -/
structure IsTag (t : Text) : Prop where
  ne_nil : t ≠ []
  comma : ',' ∉ t
  head : ∀ c ∈ t.head?, Text.isBlank c = false
  last : ∀ c ∈ t.getLast?, Text.isBlank c = false

theorem isTag_of_parseTagList {argument : Text} {ts : List Text}
    (h : parseTagList argument = .ok ts) {t : Text} (ht : t ∈ ts) : IsTag t := by
  have hts : ts = ((Text.splitOn ',' argument).map Text.trim).filter (fun t => !t.isEmpty) := by
    unfold parseTagList at h
    split at h
    · cases h
    · next heq => rw [heq, Except.ok.inj h]
  rw [hts, List.mem_filter, List.mem_map] at ht
  obtain ⟨⟨piece, hpiece, rfl⟩, hne⟩ := ht
  refine ⟨by simpa using hne, fun hc => ?_, (Text.not_blank_of_trim piece).1,
    (Text.not_blank_of_trim piece).2⟩
  have hcomma := Text.not_mem_splitWhere hpiece ',' (Text.mem_of_mem_trim hc)
  exact absurd hcomma (by decide)

/-! ## Routes -/

/-- What holds of every route that is read. -/
structure Route.Sound (r : Route) : Prop where
  operationId : IsWord r.operationId
  verb : IsWord r.verb
  path : IsWord r.path
  params : ∀ p ∈ r.params, p.WellFormed
  responses : ∀ s ∈ r.responses, s.WellFormed
  tags : ∀ t ∈ r.tags, IsTag t

/-- What is kept of arguments that are read was read from one of them. -/
theorem eq_ok_of_toOption {β ε : Type} {x : Except ε β} {b : β} (h : x.toOption = some b) :
    x = .ok b := by
  cases x with
  | error e => cases h
  | ok c => rw [Option.some.inj h]

theorem toOption_eq_none_iff {β ε : Type} {x : Except ε β} :
    x.toOption = none ↔ x.isOk = false := by
  cases x with
  | error e => exact iff_of_true rfl rfl
  | ok b => exact iff_of_false nofun nofun

theorem exists_ok_of_mem {α β ε : Type} {read : α → Except ε β} {as : List α} {b : β}
    (h : b ∈ as.filterMap fun a => (read a).toOption) : ∃ a ∈ as, read a = .ok b := by
  obtain ⟨a, ha, hb⟩ := List.mem_filterMap.mp h
  exact ⟨a, ha, eq_ok_of_toOption hb⟩

theorem Route.isWord_signature {table : DirectiveTable} {s : Signature}
    (h : signature table = .ok s) :
    IsWord s.operationId ∧ IsWord s.verb ∧ IsWord s.path := by
  unfold signature at h
  split at h
  · cases h
  · next line _ =>
    have hwords : ∀ w ∈ words line, IsWord w := fun w hw => Text.mem_words hw
    split at h
    · next hcut =>
      rw [hcut] at hwords
      obtain rfl := Except.ok.inj h
      exact ⟨hwords _ (by simp), hwords _ (by simp), hwords _ (by simp)⟩
    · cases h

/-- A route that is read has the signature of its block, and of the arguments of a directive those
that can be read, or the last of them. -/
theorem Route.of_parse {table : DirectiveTable} {place : Place} {r : Route}
    (h : parse table place = .ok r) :
    signature table = .ok ⟨r.operationId, r.verb, r.path⟩ ∧
    r.params = (table.arguments .param).filterMap (fun a => (Param.parse a).toOption) ∧
    r.responses = (table.arguments .response).filterMap (fun a => (Response.parse a).toOption) ∧
    r.tags =
      ((table.arguments .tag).filterMap fun a => (parseTagList a).toOption).getLast?.getD [] := by
  unfold parse at h
  cases hs : signature table with
  | error e => simp [hs] at h
  | ok s =>
    simp only [hs] at h
    obtain rfl := Except.ok.inj h
    exact ⟨rfl, rfl, rfl, rfl⟩

theorem Route.sound_of_parse {table : DirectiveTable} {place : Place} {r : Route}
    (h : parse table place = .ok r) : r.Sound := by
  obtain ⟨hsignature, hparams, hresponses, htags⟩ := of_parse h
  obtain ⟨hid, hverb, hpath⟩ := isWord_signature hsignature
  refine ⟨hid, hverb, hpath, fun p hp => ?_, fun x hx => ?_, fun t ht => ?_⟩
  · obtain ⟨a, -, ha⟩ := exists_ok_of_mem (hparams ▸ hp)
    exact Param.wellFormed_of_parse ha
  · obtain ⟨a, -, ha⟩ := exists_ok_of_mem (hresponses ▸ hx)
    exact Response.wellFormed_of_parse ha
  · rw [htags] at ht
    cases hlast : ((table.arguments .tag).filterMap
        fun a => (parseTagList a).toOption).getLast? with
    | none => simp [hlast] at ht
    | some ts =>
      simp only [hlast, Option.getD_some] at ht
      obtain ⟨a, -, ha⟩ := exists_ok_of_mem (List.mem_of_getLast? hlast)
      exact isTag_of_parseTagList ha ht

/-! ## Models -/

/-- What holds of every model that is read. -/
structure Model.Sound (m : Model) : Prop where
  name : IsWord m.name
  fields : ∀ f ∈ m.fields, IsWord f.name

theorem BodyLine.isWord_of_field {style : DeclarationStyle} {line : Text} {f : ModelField}
    (h : of style line = .field f) : IsWord f.name := by
  unfold of at h
  simp only at h
  repeat' split at h
  all_goals cases h
  next hcut => exact Text.mem_words (hcut ▸ List.mem_cons_self)

theorem Model.isWord_nameOf {table : DirectiveTable} {name : Text}
    (h : nameOf table = .ok name) : IsWord name := by
  unfold nameOf at h
  split at h
  · cases h
  · split at h
    · cases h
    · next hcut =>
      rw [← Except.ok.inj h]
      exact Text.mem_words (hcut ▸ List.mem_cons_self)

/-- A model that is read has the name, the place and the fields of its block. -/
theorem Model.of_parse {style : DeclarationStyle} {lines : List Text} {table : DirectiveTable}
    {place : Place} {m : Model} (h : parse style lines table place = .ok m) :
    nameOf table = .ok m.name ∧ m.place = place ∧
      m.fields = (body style lines place.line).filterMap BodyLine.field? := by
  unfold parse at h
  cases hname : nameOf table with
  | error e => simp [hname] at h
  | ok name =>
    simp only [hname] at h
    obtain rfl := Except.ok.inj h
    exact ⟨rfl, rfl, rfl⟩

theorem Model.sound_of_parse {style : DeclarationStyle} {lines : List Text}
    {table : DirectiveTable} {place : Place} {m : Model}
    (h : parse style lines table place = .ok m) : m.Sound := by
  obtain ⟨hname, -, hfields⟩ := of_parse h
  refine ⟨isWord_nameOf hname, fun f hf => ?_⟩
  rw [hfields] at hf
  obtain ⟨l, hl, hfield⟩ := List.mem_filterMap.mp hf
  obtain ⟨line, -, rfl⟩ := List.mem_map.mp ((List.takeWhile_prefix _).mem hl)
  refine BodyLine.isWord_of_field (?_ : BodyLine.of style line = .field f)
  cases hline : BodyLine.of style line with
  | field g =>
    rw [hline] at hfield
    rw [Option.some.inj hfield]
  | nothing | closing | untyped => simp [hline, BodyLine.field?] at hfield

/-! ## Files -/

/-- What holds of the records of every file. -/
structure FileRecords.Sound (f : FileRecords) : Prop where
  routes : ∀ r ∈ f.routes, r.Sound
  models : ∀ m ∈ f.models, m.Sound

/-- **Records that are read.**  The records of every file are sound, for every configuration. -/
theorem FileRecords.sound_ofSource (config : Config) (source : SourceFile) :
    (ofSource config source).Sound := by
  constructor
  · intro r hr
    obtain ⟨b, -, hb⟩ := exists_ok_of_mem hr
    exact Route.sound_of_parse hb
  · intro m hm
    obtain ⟨b, -, hb⟩ := exists_ok_of_mem hm
    exact Model.sound_of_parse hb

end ApiAnnotations

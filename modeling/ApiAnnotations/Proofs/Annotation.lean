import ApiAnnotations.Extraction
import ApiAnnotations.Proofs.DirectiveTable
import ApiAnnotations.Proofs.Text.Decimal
import ApiAnnotations.Proofs.Text.Lines
import Mathlib.Tactic.MkIffOfInductiveProp

/-! # Writing records as annotations

How a route or a model is written as comment lines and a declaration, and that the argument of each
directive is read back.

* `Route.arguments` and `Model.arguments` : the arguments of the directives of a record.
* `Record.lines` : the lines of a record; `render` : the text of a list of records.
* `Route.WellFormed`, `Model.WellFormed` : the records that can be written.
* `arguments_annotate` : the arguments are read back; `Route.parse_annotate` and
  `Model.nameOf_annotate` : they are read as the record. -/

namespace ApiAnnotations

open Text (IsWord IsText words unwords joinWith)

/-! ## Written forms -/

/-- The line of a directive with an argument. -/
def Directive.line (d : Directive) (argument : Text) : Text := '@' :: (d.name ++ ' ' :: argument)

/-- A name read as the primitive type. -/
def Primitive.token : Primitive → Text
  | .integer => "int"
  | .number => "float"
  | .string => "string"
  | .boolean => "bool"

def ParamType.token : ParamType → Text
  | .primitive p => p.token
  | .reference name => name

def FieldType.token : FieldType → Text
  | .primitive p => p.token
  | .array name => '[' :: ']' :: name
  | .object name => name

def Modifier.token : Modifier → Text
  | .location l => "in:".toList ++ l.name
  | .required b => if b then "required" else "optional"

/-- `NAME TYPE in:LOCATION required|optional DESCRIPTION`. -/
def Param.argument (p : Param) : Text :=
  joinWith [' '] [p.name, p.type.token, (Modifier.location p.location).token,
    (Modifier.required p.required).token, p.description]

/-- The token of a schema, `empty` for none. -/
def SchemaRef.token : Option SchemaRef → Text
  | none => "empty"
  | some s => if s.isArray then '[' :: ']' :: s.name else s.name

/-- `CODE SCHEMA DESCRIPTION`. -/
def Response.argument (r : Response) : Text :=
  joinWith [' '] [Text.Decimal.ofNat r.statusCode, SchemaRef.token r.schema, r.description]

/-- The order in which the directives of a record are written. -/
def Directive.order : List Directive := [.description, .route, .model, .param, .response, .tag]

/-- The lines of the directives with their arguments. -/
def Directive.annotate (arguments : Directive → List Text) : List Text :=
  order.flatMap fun d => (arguments d).map d.line

/-- The arguments of a route. The description is left out if there is none, and so are the tags. -/
def Route.arguments (r : Route) : Directive → List Text
  | .description => r.description.toList
  | .route => [joinWith [' '] [r.operationId, r.verb, r.path]]
  | .model => []
  | .param => r.params.map Param.argument
  | .response => r.responses.map Response.argument
  | .tag => if r.tags.isEmpty then [] else [joinWith [','] r.tags]

def Model.arguments (m : Model) : Directive → List Text
  | .description => m.description.toList
  | .model => [m.name]
  | _ => []

/-- A record to be written; a model is followed by the declaration of a type of any name. -/
inductive Record
  | route (r : Route)
  | model (m : Model) (declared : Text)
deriving DecidableEq

namespace Record

def arguments : Record → Directive → List Text
  | .route r => r.arguments
  | .model m _ => m.arguments

/-- The texts of the comment lines. -/
def block (x : Record) : List Text := Directive.annotate x.arguments

def comments (x : Record) : List Text := x.block.map ("// ".toList ++ ·)

/-- The lines between the comments and the closing brace. -/
def code : Record → List Text
  | .route _ => []
  | .model m declared =>
    ("type ".toList ++ declared ++ " struct \x7b".toList) ::
      m.fields.map fun f => '\t' :: (f.name ++ ' ' :: f.type.token)

def lines (x : Record) : List Text := x.comments ++ x.code ++ [['}']]

end Record

/-- The text of records. -/
def render (xs : List Record) : Text := Text.unlines (xs.flatMap Record.lines)

/-! ## Records that can be written -/

/-- A primitive, or a name that is a word and no name of a primitive. -/
def ParamType.WellFormed : ParamType → Prop
  | .primitive _ => True
  | .reference name => IsWord name ∧ Primitive.ofName? name = none

/-- A primitive, or a word without markers or points that is no name of a primitive. -/
def FieldType.WellFormed : FieldType → Prop
  | .primitive _ => True
  | .array name | .object name =>
    IsWord name ∧ '.' ∉ name ∧ Text.startsWith ['*'] name = false ∧
      Text.startsWith ['[', ']'] name = false ∧ Primitive.ofName? name = none

@[mk_iff] structure Param.WellFormed (p : Param) : Prop where
  name : IsWord p.name
  type : p.type.WellFormed
  description : IsText p.description

/-- A name that is a word and, unless it stands for an array, is neither `empty` nor marked. -/
def SchemaRef.WellFormed (s : SchemaRef) : Prop :=
  IsWord s.name ∧ (s.isArray = false →
    s.name ≠ "empty".toList ∧ Text.startsWith ['[', ']'] s.name = false)

@[mk_iff] structure Response.WellFormed (r : Response) : Prop where
  statusCode : r.statusCode ≤ maxStatusCode
  schema : ∀ s ∈ r.schema, s.WellFormed
  description : IsText r.description

/-- A description that is given has a word in it. -/
def WrittenDescription (description : Option Text) : Prop :=
  ∀ d ∈ description, d ≠ [] ∧ IsText d

@[mk_iff] structure Route.WellFormed (r : Route) : Prop where
  operationId : IsWord r.operationId
  verb : IsWord r.verb
  path : IsWord r.path
  description : WrittenDescription r.description
  params : ∀ p ∈ r.params, p.WellFormed
  responses : ∀ s ∈ r.responses, s.WellFormed
  tags : ∀ t ∈ r.tags, t ≠ [] ∧ IsText t ∧ ',' ∉ t

/-- A field whose line begins neither a declaration nor a comment. -/
@[mk_iff] structure ModelField.WellFormed (f : ModelField) : Prop where
  name : IsWord f.name
  keyword : f.name ≠ "type".toList
  comment : Text.startsWith ['/', '/'] f.name = false
  type : f.type.WellFormed

@[mk_iff] structure Model.WellFormed (m : Model) : Prop where
  name : IsWord m.name
  description : WrittenDescription m.description
  fields : ∀ f ∈ m.fields, f.WellFormed

def Record.WellFormed : Record → Prop
  | .route r => r.WellFormed
  | .model m declared => m.WellFormed ∧ Text.IsLine declared

instance : (t : ParamType) → Decidable t.WellFormed
  | .primitive _ => inferInstanceAs (Decidable True)
  | .reference _ => inferInstanceAs (Decidable (_ ∧ _))

instance : (t : FieldType) → Decidable t.WellFormed
  | .primitive _ => inferInstanceAs (Decidable True)
  | .array _ => inferInstanceAs (Decidable (_ ∧ _))
  | .object _ => inferInstanceAs (Decidable (_ ∧ _))

instance (p : Param) : Decidable p.WellFormed := decidable_of_iff' _ (Param.wellFormed_iff p)

instance (s : SchemaRef) : Decidable s.WellFormed := inferInstanceAs (Decidable (_ ∧ _))

instance (r : Response) : Decidable r.WellFormed := decidable_of_iff' _ (Response.wellFormed_iff r)

instance (description : Option Text) : Decidable (WrittenDescription description) :=
  inferInstanceAs (Decidable (∀ d ∈ description, d ≠ [] ∧ IsText d))

instance (r : Route) : Decidable r.WellFormed := decidable_of_iff' _ (Route.wellFormed_iff r)

instance (f : ModelField) : Decidable f.WellFormed :=
  decidable_of_iff' _ (ModelField.wellFormed_iff f)

instance (m : Model) : Decidable m.WellFormed := decidable_of_iff' _ (Model.wellFormed_iff m)

instance : (x : Record) → Decidable x.WellFormed
  | .route r => inferInstanceAs (Decidable r.WellFormed)
  | .model m declared => inferInstanceAs (Decidable (m.WellFormed ∧ Text.IsLine declared))

/-! ## Tokens -/

theorem Primitive.isWord_token (p : Primitive) : IsWord p.token := by
  cases p <;> decide

theorem ParamType.isWord_token {t : ParamType} (h : t.WellFormed) : IsWord t.token := by
  cases t with
  | primitive p => exact p.isWord_token
  | reference name => exact h.1

theorem ParamType.ofToken_token {t : ParamType} (h : t.WellFormed) : ofToken t.token = t := by
  cases t with
  | primitive p => cases p <;> rfl
  | reference name => rw [ofToken, firstOf?_order, token, h.2]

theorem isWord_brackets {name : Text} (h : IsWord name) : IsWord ('[' :: ']' :: name) := by
  refine ⟨List.cons_ne_nil _ _, fun c hc => ?_⟩
  simp only [List.mem_cons] at hc
  rcases hc with rfl | rfl | hc
  · decide
  · decide
  · exact h.2 c hc

theorem FieldType.isWord_token {t : FieldType} (h : t.WellFormed) : IsWord t.token := by
  cases t with
  | primitive p => exact p.isWord_token
  | array name => exact isWord_brackets h.1
  | object name => exact h.1

theorem FieldType.stripMarkers_of_not {s : Text} (seen : Bool)
    (hstar : Text.startsWith ['*'] s = false) (harray : Text.startsWith ['[', ']'] s = false) :
    stripMarkers seen s = (seen, s) := by
  unfold stripMarkers
  split
  · simp [Text.startsWith] at harray
  · simp [Text.startsWith] at hstar
  · rfl

theorem FieldType.lastSegment_of_not_mem {s : Text} (h : '.' ∉ s) : lastSegment s = s := by
  rw [lastSegment, Text.splitOn_of_not_mem h]
  rfl

theorem FieldType.ofToken_token {t : FieldType} (h : t.WellFormed) : ofToken t.token = t := by
  cases t with
  | primitive p => cases p <;> rfl
  | array name =>
    obtain ⟨-, hpoint, hstar, harray, hname⟩ := h
    have hstrip : stripMarkers false ('[' :: ']' :: name) = (true, name) := by
      rw [stripMarkers, stripMarkers_of_not true hstar harray]
    simp [ofToken, firstOf?_order, token, hstrip, lastSegment_of_not_mem hpoint, hname]
  | object name =>
    obtain ⟨-, hpoint, hstar, harray, hname⟩ := h
    simp [ofToken, firstOf?_order, token, stripMarkers_of_not false hstar harray,
      lastSegment_of_not_mem hpoint, hname]

theorem Modifier.isWord_token (m : Modifier) : IsWord m.token := by
  cases m with
  | location l => cases l <;> decide
  | required b => cases b <;> decide

theorem Modifier.ofWord?_token (m : Modifier) : ofWord? m.token = .ok (some m) := by
  cases m with
  | location l => cases l <;> rfl
  | required b => cases b <;> rfl

theorem SchemaRef.isWord_token {s : Option SchemaRef} (h : ∀ x ∈ s, x.WellFormed) :
    IsWord (token s) := by
  cases s with
  | none => decide
  | some s =>
    obtain ⟨hname, -⟩ := h s rfl
    obtain ⟨name, isArray⟩ := s
    cases isArray
    · exact hname
    · exact isWord_brackets hname

theorem SchemaRef.ofToken?_token {s : Option SchemaRef} (h : ∀ x ∈ s, x.WellFormed) :
    ofToken? (token s) = s := by
  cases s with
  | none => rfl
  | some s =>
    obtain ⟨hname, hplain⟩ := h s rfl
    obtain ⟨name, isArray⟩ := s
    have hne : name.isEmpty = false := by simpa using hname.1
    cases isArray with
    | false =>
      obtain ⟨hempty, hmark⟩ := hplain rfl
      have hstrip : Text.stripStart? "[]".toList name = none := by
        cases hs : Text.stripStart? "[]".toList name with
        | none => rfl
        | some r =>
          have hstart : Text.startsWith ['[', ']'] name = true :=
            Text.startsWith_iff.mpr ⟨r, Text.stripStart?_eq_some_iff.mp hs⟩
          rw [hmark] at hstart
          exact absurd hstart Bool.false_ne_true
      rw [ofToken?]
      simp only [token, Bool.false_eq_true, if_false, if_neg hempty, hstrip, hne]
    | true =>
      have hstrip : Text.stripStart? "[]".toList ('[' :: ']' :: name) = some name := rfl
      rw [ofToken?, token, if_pos rfl, if_neg (by simp), hstrip]
      simp only [hne, Bool.false_eq_true, if_false]

/-! ## Arguments -/

theorem Param.words_argument {p : Param} (h : p.WellFormed) :
    words p.argument = p.name :: p.type.token :: (Modifier.location p.location).token ::
      (Modifier.required p.required).token :: words p.description := by
  rw [argument, Text.words_joinWith]
  simp [Text.words_word h.name, Text.words_word (ParamType.isWord_token h.type),
    Text.words_word (Modifier.isWord_token _)]

theorem Param.parse_argument {p : Param} (h : p.WellFormed) :
    parse (unwords (words p.argument)) = .ok p := by
  have hmodifiers : ∀ (q : Param) (m n : Modifier) (ws : List Text),
      readModifiers modifierSlots q (m.token :: n.token :: ws) = .ok (n.apply (m.apply q), ws) := by
    intro q m n ws
    simp only [modifierSlots, readModifiers, Modifier.ofWord?_token]
  rw [parse, Text.words_unwords_words, words_argument h]
  simp only [hmodifiers, Modifier.apply, ParamType.ofToken_token h.type,
    h.description.unwords_words]

theorem Response.words_argument {r : Response} (h : r.WellFormed) :
    words r.argument = Text.Decimal.ofNat r.statusCode :: SchemaRef.token r.schema ::
      words r.description := by
  rw [argument, Text.words_joinWith]
  simp [Text.words_word (Text.Decimal.isWord_ofNat _),
    Text.words_word (SchemaRef.isWord_token h.schema)]

theorem Response.parse_argument {r : Response} (h : r.WellFormed) :
    parse (unwords (words r.argument)) = .ok r := by
  rw [parse, Text.words_unwords_words, words_argument h]
  simp [Text.Decimal.unsigned?_ofNat h.statusCode, SchemaRef.ofToken?_token h.schema,
    h.description.unwords_words]

/-- Tags separated by commas are a text, so that reading words leaves them as they are. -/
theorem isText_joinWith_comma {ts : List Text} (h : ∀ t ∈ ts, IsText t) :
    IsText (joinWith [','] ts) := by
  induction ts with
  | nil => exact ⟨[], by simp, rfl⟩
  | cons t ts ih =>
    have ht := h t (List.mem_cons_self ..)
    have ih := ih fun u hu => h u (List.mem_cons_of_mem _ hu)
    cases ts with
    | nil => exact ht
    | cons u ts =>
      rw [joinWith, List.append_assoc, List.singleton_append]
      exact ht.append_cons (by decide) ih

theorem parseTagList_joinWith {ts : List Text} (hne : ts ≠ [])
    (h : ∀ t ∈ ts, t ≠ [] ∧ IsText t ∧ ',' ∉ t) :
    parseTagList (unwords (words (joinWith [','] ts))) = .ok ts := by
  have htrim : ts.map Text.trim = ts := by
    refine (List.map_congr_left fun t ht => ?_).trans (List.map_id ts)
    exact (h t ht).2.1.trim_eq
  have hfilter : (ts.filter fun t => !t.isEmpty) = ts := by
    refine List.filter_eq_self.mpr fun t ht => ?_
    simpa using (h t ht).1
  rw [parseTagList, (isText_joinWith_comma fun t ht => (h t ht).2.1).unwords_words,
    Text.splitOn_joinWith hne fun t ht => (h t ht).2.2, htrim, hfilter]
  cases ts with
  | nil => exact absurd rfl hne
  | cons t ts => rfl

/-! ## Tables -/

theorem Directive.isLine_line (d : Directive) (argument : Text) :
    isLine (d.line argument) = true := rfl

theorem Directive.ofLine?_line (d : Directive) (argument : Text) :
    ofLine? (d.line argument) = some (d, unwords (words argument)) := by
  have hname : IsWord ('@' :: d.name) := by cases d <;> decide
  have hwords : words (d.line argument) = ('@' :: d.name) :: words argument := by
    have h := Text.words_append_blank (show Text.isBlank ' ' = true by decide) ('@' :: d.name)
      argument
    rwa [Text.words_word hname] at h
  simp [ofLine?, isLine_line, hwords, ofName?_name]

theorem Directive.mem_annotate {arguments : Directive → List Text} {line : Text} :
    line ∈ annotate arguments ↔ ∃ d, ∃ a ∈ arguments d, d.line a = line := by
  have horder : ∀ d, d ∈ order := fun d => by cases d <;> decide
  simp [annotate, horder]

namespace DirectiveTable

/-- Lines of one directive have arguments of that directive only. -/
theorem arguments_map_line (d d' : Directive) (as : List Text) :
    (ofLines (as.map d'.line)).arguments d =
      if d' = d then as.map fun a => unwords (words a) else [] := by
  rw [arguments_ofLines]
  induction as with
  | nil => simp
  | cons a as ih =>
    rw [List.map_cons, List.filterMap_cons, Directive.ofLine?_line, List.filter_cons]
    by_cases h : d' = d
    · simpa [h] using ih
    · simpa [h] using ih

/-- **The arguments that are written are read back**, their words joined with single spaces. -/
theorem arguments_annotate (arguments : Directive → List Text) (d : Directive) :
    (ofLines (Directive.annotate arguments)).arguments d =
      (arguments d).map fun a => unwords (words a) := by
  simp only [Directive.annotate, Directive.order, List.flatMap_cons, List.flatMap_nil,
    arguments_append, arguments_map_line]
  cases d <;> simp [arguments_ofLines]

theorem preamble_annotate (arguments : Directive → List Text) :
    (ofLines (Directive.annotate arguments)).preamble = [] := by
  have hnone : above (Directive.annotate arguments) = [] := by
    refine above_of_isLine fun l hl => ?_
    obtain ⟨d, a, -, rfl⟩ := Directive.mem_annotate.mp hl
    exact d.isLine_line a
  rw [preamble_ofLines, hnone]
  rfl

theorem description_annotate (arguments : Directive → List Text) {description : Option Text}
    (h : WrittenDescription description)
    (harguments : arguments .description = description.toList) :
    (ofLines (Directive.annotate arguments)).description = description := by
  rw [DirectiveTable.description, first?, arguments_annotate, preamble_annotate, harguments]
  cases description with
  | none => rfl
  | some d =>
    obtain ⟨hne, htext⟩ := h d rfl
    obtain ⟨c, s, rfl⟩ := List.exists_cons_of_ne_nil hne
    simp [htext.unwords_words]

end DirectiveTable

/-! ## Records -/

theorem filterMap_toOption_map {α ε : Type} {read : Text → Except ε α} {write : α → Text}
    {as : List α} (h : ∀ a ∈ as, read (write a) = .ok a) :
    (as.map write).filterMap (fun t => (read t).toOption) = as := by
  induction as with
  | nil => rfl
  | cons a as ih =>
    rw [List.map_cons, List.filterMap_cons, h a (List.mem_cons_self ..),
      ih fun b hb => h b (List.mem_cons_of_mem _ hb)]
    rfl

theorem Route.signature_annotate {r : Route} (h : r.WellFormed) :
    signature (.ofLines (Directive.annotate r.arguments)) =
      .ok ⟨r.operationId, r.verb, r.path⟩ := by
  have hwords : words (unwords (words (joinWith [' '] [r.operationId, r.verb, r.path]))) =
      [r.operationId, r.verb, r.path] := by
    rw [Text.words_unwords_words, Text.words_joinWith]
    simp [Text.words_word h.operationId, Text.words_word h.verb, Text.words_word h.path]
  rw [signature, DirectiveTable.first?, DirectiveTable.arguments_annotate]
  simp [arguments, hwords]

/-- **The table of a route's directives is read as the route.** -/
theorem Route.parse_annotate {r : Route} (h : r.WellFormed) (place : Place) :
    parse (.ofLines (Directive.annotate r.arguments)) place = .ok { r with place := place } := by
  have hdescription := DirectiveTable.description_annotate r.arguments h.description rfl
  have hparams : ((r.params.map Param.argument).map fun a => unwords (words a)).filterMap
      (fun a => (Param.parse a).toOption) = r.params := by
    rw [List.map_map]
    exact filterMap_toOption_map fun p hp => Param.parse_argument (h.params p hp)
  have hresponses : ((r.responses.map Response.argument).map fun a => unwords (words a)).filterMap
      (fun a => (Response.parse a).toOption) = r.responses := by
    rw [List.map_map]
    exact filterMap_toOption_map fun s hs => Response.parse_argument (h.responses s hs)
  have htags : (((r.arguments .tag).map fun a => unwords (words a)).filterMap
      fun a => (parseTagList a).toOption).getLast?.getD [] = r.tags := by
    by_cases hts : r.tags = []
    · simp [arguments, hts]
    · simp [arguments, hts, parseTagList_joinWith hts h.tags, Except.toOption]
  rw [parse, signature_annotate h, hdescription, DirectiveTable.arguments_annotate,
    DirectiveTable.arguments_annotate, DirectiveTable.arguments_annotate, htags]
  simp only [arguments, hparams, hresponses]

/-- **The table of a model's directives names the model.** -/
theorem Model.nameOf_annotate {m : Model} (h : m.WellFormed) :
    nameOf (.ofLines (Directive.annotate m.arguments)) = .ok m.name := by
  have hwords : words (unwords (words m.name)) = [m.name] := by
    rw [Text.words_unwords_words, Text.words_word h.name]
  rw [nameOf, DirectiveTable.first?, DirectiveTable.arguments_annotate]
  simp [arguments, hwords]

end ApiAnnotations

import ApiAnnotations.Proofs.ReadRecords
import ApiAnnotations.Proofs.Replacement
import Mathlib.Algebra.GroupWithZero.Nat

/-! # Nothing goes without a warning

What is read but does not reach the result is counted by the warnings: blocks that make no record,
arguments that make no part of a route, and records replaced by later ones.

* `length_filterMap_toOption` : what is read and what is refused are all there is; hence
  `FileRecords.length_add_losses` for the blocks of a file, and `Route.length_add_losses` for the
  arguments of a route.
* `Route.lastTags_of_parse` : of the tag lists of a route the last one that can be read counts.
* `repeats_add_length` : the distinct elements of a list and the repetitions are all there is; hence
  `size_definitions_add_losses` for models and `operationCount_add_losses` for routes.
* `warnings_conserve` puts them together. -/

namespace ApiAnnotations

/-- What a warning can say to be left out. -/
inductive Loss
  | block (kind : RecordKind)
  | param
  | response
  | tags
  | model
  | operation
deriving DecidableEq

namespace Event

def loss? : Event → Option Loss
  | .skippedBlock _ kind _ => some (.block kind)
  | .droppedParam .. => some .param
  | .droppedResponse .. => some .response
  | .ignoredTags .. => some .tags
  | .replacedModel .. => some .model
  | .replacedOperation .. => some .operation
  | _ => none

/-- Whether an event says that something of a sort is left out. -/
def tells (loss : Loss) (e : Event) : Bool := e.loss? = some loss

/-- The number of warnings that say so. -/
def losses (loss : Loss) (events : List Event) : Nat := (select .warn events).countP (tells loss)

theorem level_of_tells {loss : Loss} {e : Event} (h : e.tells loss = true) : e.level = .warn := by
  cases e <;> first | rfl | simp [tells, loss?] at h

theorem losses_eq_countP (loss : Loss) (events : List Event) :
    losses loss events = events.countP (tells loss) := by
  unfold losses select
  rw [List.countP_filter]
  refine List.countP_congr fun e _ => ?_
  rw [Bool.and_eq_true]
  exact ⟨And.left, fun he => ⟨he, by rw [level_of_tells he]; rfl⟩⟩

theorem countP_tells_eq_zero {loss : Loss} {events : List Event}
    (h : ∀ e ∈ events, e.loss? = none) : events.countP (tells loss) = 0 := by
  rw [List.countP_eq_zero]
  intro e he
  simp [tells, h e he]

end Event

/-! ## Readings and refusals -/

section

variable {α β ε : Type}

/-- What is read and what is refused are all there is. -/
theorem length_filterMap_toOption (read : α → Except ε β) (as : List α) :
    (as.filterMap fun a => (read a).toOption).length + as.countP (fun a => !(read a).isOk) =
      as.length := by
  induction as with
  | nil => rfl
  | cons a as ih =>
    rw [List.filterMap_cons, List.countP_cons, List.length_cons]
    cases h : read a with
    | ok b =>
      simp only [Except.toOption, Except.isOk, Except.toBool, List.length_cons] at ih ⊢
      simp
      omega
    | error e =>
      simp only [Except.toOption, Except.isOk, Except.toBool] at ih ⊢
      simp
      omega

/-- What is read stands in the order of what it is read from. -/
theorem map_filterMap_toOption_sublist (read : α → Except ε β) (as : List α) :
    ((as.filterMap fun a => (read a).toOption).map Except.ok).Sublist (as.map read) := by
  induction as with
  | nil => exact List.Sublist.slnil
  | cons a as ih =>
    rw [List.filterMap_cons, List.map_cons]
    cases h : read a with
    | ok b => exact ih.cons_cons _
    | error e => exact ih.cons _

theorem getLast?_filterMap_toOption_eq_none {read : α → Except ε β} {as : List α}
    (h : (as.filterMap fun a => (read a).toOption).getLast? = none) :
    ∀ a ∈ as, (read a).isOk = false := by
  intro a ha
  have hnil := List.filterMap_eq_nil_iff.mp (List.getLast?_eq_none_iff.mp h)
  exact toOption_eq_none_iff.mp (hnil a ha)

/-- The last of what is read has nothing but refusals behind it. -/
theorem getLast?_filterMap_toOption_eq_some {read : α → Except ε β} {as : List α} {b : β}
    (h : (as.filterMap fun a => (read a).toOption).getLast? = some b) :
    ∃ before a after, as = before ++ a :: after ∧ read a = .ok b ∧
      ∀ c ∈ after, (read c).isOk = false := by
  obtain ⟨bs, hbs⟩ := List.getLast?_eq_some_iff.mp h
  obtain ⟨as₁, as₂, rfl, -, hlast⟩ := List.filterMap_eq_append_iff.mp hbs
  obtain ⟨before, a, after, rfl, -, ha, hnil⟩ := List.filterMap_eq_cons_iff.mp hlast
  refine ⟨as₁ ++ before, a, after, (List.append_assoc ..).symm, eq_ok_of_toOption ha, ?_⟩
  exact fun c hc => toOption_eq_none_iff.mp (List.filterMap_eq_nil_iff.mp hnil c hc)

end

/-! ## Blocks -/

namespace CommentBlock

/-- The first lines of the blocks around the marked lines, each once. -/
def markedStarts (start marker : Text) (lines : List Text) : List Nat :=
  ((MarkedLine.allFrom marker 0 lines).map
    fun m => (around start lines m.index).firstLine).eraseDups

theorem map_firstLine_distinct (seen : List Nat) (bs : List CommentBlock) :
    (distinct seen bs).map firstLine =
      ((bs.map firstLine).filter fun n => decide (n ∉ seen)).eraseDups := by
  induction bs generalizing seen with
  | nil => rfl
  | cons b bs ih =>
    rw [distinct, List.map_cons, List.filter_cons]
    by_cases h : b.firstLine ∈ seen
    · rw [if_pos h, if_neg (by simp [h]), ih]
    · rw [if_neg h, if_pos (by simp [h]), List.map_cons, ih, List.eraseDups_cons,
        List.filter_filter]
      congr 3
      funext n
      by_cases hn : n = b.firstLine <;> simp [hn]

theorem length_marked (start marker : Text) (lines : List Text) :
    (marked start marker lines).length = (markedStarts start marker lines).length := by
  have h := map_firstLine_distinct []
    ((MarkedLine.allFrom marker 0 lines).map fun m => around start lines m.index)
  rw [List.filter_eq_self.mpr (by simp), List.map_map] at h
  rw [marked, markedStarts, ← List.length_map firstLine, h]
  rfl

end CommentBlock

namespace Extraction

variable {α : Type} {kind : RecordKind}
  {read : DirectiveTable → Place → Except GrammarError α}
  {inner : DirectiveTable → Place → List Event}

theorem countP_blockEvents {sort : RecordKind} (file : Text)
    (hinner : ∀ t p, ∀ e ∈ inner t p, e.tells (.block sort) = false) (b : CommentBlock) :
    (blockEvents file kind read inner b).countP (Event.tells (.block sort)) =
      if kind = sort ∧ (read b.table (b.place file)).isOk = false then 1 else 0 := by
  have hnone : (inner b.table (b.place file)).countP (Event.tells (.block sort)) = 0 := by
    rw [List.countP_eq_zero]
    intro e he
    rw [hinner _ _ e he]
    exact Bool.false_ne_true
  unfold blockEvents
  rw [List.cons_append, List.countP_cons, List.countP_append, hnone]
  cases hread : read b.table (b.place file) with
  | ok a => simp [Event.tells, Event.loss?, Except.isOk, Except.toBool]
  | error e => simp [Event.tells, Event.loss?, Except.isOk, Except.toBool]

/-- Reading the blocks of a file for records of one kind warns about those that make none, and
about no record of another kind. -/
theorem countP_events {sort : RecordKind} (config : Config) (source : SourceFile) (marker : Text)
    (hinner : ∀ t p, ∀ e ∈ inner t p, e.tells (.block sort) = false) :
    (events source kind read inner (blocks config source marker)).countP
        (Event.tells (.block sort)) =
      if kind = sort then
        (blocks config source marker).countP fun b => !(read b.table (b.place source.path)).isOk
      else 0 := by
  unfold events
  by_cases hnil : source.lines = []
  · have hblocks : blocks config source marker = [] := by
      rw [blocks, hnil]
      rfl
    rw [if_pos (by simp [hnil]), hblocks]
    simp [Event.tells, Event.loss?]
  · rw [if_neg (by simpa using hnil)]
    induction blocks config source marker with
    | nil => simp
    | cons b bs ih =>
      rw [List.flatMap_cons, List.countP_append, countP_blockEvents _ hinner, ih,
        List.countP_cons]
      by_cases hkind : kind = sort
      · simp [hkind, Nat.add_comm]
      · simp [hkind]

end Extraction

/-! ## Arguments -/

namespace Route

variable {α : Type} {read : Text → Except GrammarError α} {event : Text → GrammarError → Event}
  {loss : Loss}

/-- The refusals of a directive's arguments are all of one sort. -/
theorem countP_refusals {sort : Loss} (h : ∀ a e, (event a e).loss? = some sort)
    (arguments : List Text) :
    (refusals read event arguments).countP (Event.tells loss) =
      if sort = loss then arguments.countP fun a => !(read a).isOk else 0 := by
  induction arguments with
  | nil => simp [refusals]
  | cons a as ih =>
    unfold refusals at ih ⊢
    rw [List.filterMap_cons, List.countP_cons]
    cases hread : read a with
    | ok b => simp [Except.isOk, Except.toBool, ih]
    | error e =>
      by_cases hsort : sort = loss
      · simp [Except.isOk, Except.toBool, ih, Event.tells, h, hsort]
      · simp [ih, Event.tells, h, hsort]

/-- The warnings about a route that is read count the arguments refused, directive by directive. -/
theorem countP_dropped (place : Place) {table : DirectiveTable} {s : Signature}
    (h : signature table = .ok s) :
    (dropped table place).countP (Event.tells .param) =
      (table.arguments .param).countP (fun a => !(Param.parse a).isOk) ∧
    (dropped table place).countP (Event.tells .response) =
      (table.arguments .response).countP (fun a => !(Response.parse a).isOk) ∧
    (dropped table place).countP (Event.tells .tags) =
      (table.arguments .tag).countP fun a => !(parseTagList a).isOk := by
  have hparams : ∀ a e, (Event.droppedParam place s.operationId a e).loss? = some .param :=
    fun _ _ => rfl
  have hresponses : ∀ a e, (Event.droppedResponse place s.operationId a e).loss? =
      some .response := fun _ _ => rfl
  have htags : ∀ (_ : Text) e, (Event.ignoredTags place s.operationId e).loss? = some .tags :=
    fun _ _ => rfl
  unfold dropped
  rw [h]
  simp only [List.countP_append, countP_refusals hparams, countP_refusals hresponses,
    countP_refusals htags]
  simp

theorem not_tells_of_mem_dropped {table : DirectiveTable} {place : Place} {kind : RecordKind}
    {e : Event} (h : e ∈ dropped table place) : e.tells (.block kind) = false := by
  unfold dropped at h
  cases hs : signature table with
  | error err => simp [hs] at h
  | ok s =>
    simp only [hs, List.mem_append, refusals, List.mem_filterMap] at h
    obtain (⟨a, -, ha⟩ | ⟨a, -, ha⟩) | ⟨a, -, ha⟩ := h <;>
    · split at ha
      · rw [← Option.some.inj ha]
        rfl
      · cases ha

end Route

theorem Model.not_tells_of_mem_passedOver {style : DeclarationStyle} {lines : List Text}
    {table : DirectiveTable} {place : Place} {kind : RecordKind} {e : Event}
    (h : e ∈ passedOver style lines table place) : e.tells (.block kind) = false := by
  unfold passedOver at h
  cases hname : nameOf table with
  | error err => simp [hname] at h
  | ok name =>
    simp only [hname, List.mem_map] at h
    obtain ⟨line, -, rfl⟩ := h
    rfl

/-! ## Repetitions -/

section

variable {κ ν : Type} [DecidableEq κ]

/-- How many keys are among `seen` or repeat an earlier one. -/
def repeats (seen : List κ) : List κ → Nat
  | [] => 0
  | k :: ks => (if k ∈ seen then 1 else 0) + repeats (k :: seen) ks

/-- The distinct keys and the repetitions are all there is. -/
theorem repeats_add_length [BEq κ] [LawfulBEq κ] (seen ks : List κ) :
    repeats seen ks + ((ks.filter fun k => decide (k ∉ seen)).eraseDups).length = ks.length := by
  induction ks generalizing seen with
  | nil => rfl
  | cons k ks ih =>
    have hfilter : (ks.filter fun j => decide (j ∉ k :: seen)) =
        (ks.filter fun j => decide (j ∉ seen)).filter fun j => !j == k := by
      rw [List.filter_filter]
      apply List.filter_congr
      intro j _
      by_cases hj : j = k <;> simp [hj]
    rw [repeats, List.filter_cons, List.length_cons, ← ih (k :: seen), hfilter]
    by_cases h : k ∈ seen
    · have hself : ((ks.filter fun j => decide (j ∉ seen)).filter fun j => !j == k) =
          ks.filter fun j => decide (j ∉ seen) := by
        rw [List.filter_eq_self]
        intro j hj
        have hseen : j ∉ seen := by simpa using (List.mem_filter.mp hj).2
        simpa using fun hjk : j = k => hseen (hjk ▸ h)
      rw [if_pos h, if_neg (by simp [h]), hself]
      omega
    · rw [if_neg h, if_pos (by simp [h]), List.eraseDups_cons, List.length_cons]
      omega

namespace OrderedMap

omit [DecidableEq κ] in
theorem size_eq_length_keys (m : OrderedMap κ ν) : m.size = m.keys.length :=
  (List.length_map _).symm

theorem mem_keys_insert {m : OrderedMap κ ν} {k j : κ} {v : ν} :
    j ∈ (m.insert k v).keys ↔ j = k ∨ j ∈ m.keys := by
  rw [keys_insert]
  by_cases h : k ∈ m.keys
  · rw [if_pos h]
    exact ⟨.inr, fun hj => hj.elim (fun hj => hj ▸ h) id⟩
  · rw [if_neg h, List.mem_append, List.mem_singleton, or_comm]

theorem size_insert (m : OrderedMap κ ν) (k : κ) (v : ν) :
    (m.insert k v).size = if k ∈ m.keys then m.size else m.size + 1 := by
  rw [size_eq_length_keys, size_eq_length_keys, keys_insert]
  split <;> simp

/-- Putting a value under a key changes a sum over the values by that value alone. -/
theorem sum_put (f : ν → Nat) (k : κ) (v : ν) (es : List (κ × ν)) :
    ((put k v es).map fun e => f e.2).sum + ((find? k es).map f).getD 0 =
      (es.map fun e => f e.2).sum + f v := by
  induction es with
  | nil => simp [put, find?]
  | cons e es ih =>
    by_cases h : e.1 = k
    · simp only [put, find?, h, if_true, List.map_cons, List.sum_cons, Option.map_some,
        Option.getD_some]
      omega
    · simp only [put, find?, h, if_false, List.map_cons, List.sum_cons]
      omega

end OrderedMap

end

/-! ## Replaced records -/

namespace Assembly

variable {known : Text → Bool}

/-- A record whose key was seen is reported once. -/
theorem countP_toList_get? {κ ν : Type} [DecidableEq κ] {event : ν → Event} {loss : Loss}
    (h : ∀ v, (event v).tells loss = true) (seen : OrderedMap κ ν) (k : κ) :
    ((seen.get? k).map event).toList.countP (Event.tells loss) =
      if k ∈ seen.keys then 1 else 0 := by
  have hfound := OrderedMap.isSome_find? k seen.entries
  rw [OrderedMap.get?]
  cases hv : OrderedMap.find? k seen.entries with
  | none =>
    have hk : k ∉ seen.keys := fun hk => by simpa [hv] using hfound.mpr hk
    rw [if_neg hk]
    rfl
  | some v =>
    have hk : k ∈ seen.keys := hfound.mp (by rw [hv]; rfl)
    rw [if_pos hk]
    simp [h]

/-- The warnings about models count the repetitions of their names. -/
theorem countP_modelEvents (seen : OrderedMap Text Place) (names : List Text)
    (hseen : ∀ n, n ∈ names ↔ n ∈ seen.keys) (ms : List Model) :
    (modelEvents seen ms).countP (Event.tells .model) = repeats names (ms.map Model.name) := by
  induction ms generalizing seen names with
  | nil => rfl
  | cons m ms ih =>
    have hnext : ∀ n, n ∈ m.name :: names ↔ n ∈ (seen.insert m.name m.place).keys := by
      intro n
      rw [OrderedMap.mem_keys_insert, List.mem_cons, hseen]
    rw [modelEvents, List.countP_append, ih _ _ hnext, countP_toList_get? fun _ => rfl,
      List.map_cons, repeats]
    by_cases h : m.name ∈ names
    · rw [if_pos h, if_pos ((hseen _).mp h)]
    · rw [if_neg h, if_neg fun h' => h ((hseen _).mpr h')]

theorem loss?_of_mem_paramEvents {r : Route} {e : Event} (h : e ∈ paramEvents known r) :
    e.loss? = none := by
  obtain ⟨p, -, hp⟩ := List.mem_filterMap.mp h
  split at hp
  · cases hp
  · split at hp
    · cases hp
    · rw [← Option.some.inj hp]
      rfl

theorem loss?_of_mem_responseEvents {r : Route} {e : Event} (h : e ∈ responseEvents known r) :
    e.loss? = none := by
  obtain ⟨s, -, hs⟩ := List.mem_filterMap.mp h
  split at hs
  · cases hs
  · split at hs
    · cases hs
    · rw [← Option.some.inj hs]
      rfl

/-- The warnings about routes count the repetitions of their paths and verbs. -/
theorem countP_routeEvents (seen : OrderedMap (Text × Text) Text) (keys : List (Text × Text))
    (hseen : ∀ k, k ∈ keys ↔ k ∈ seen.keys) (rs : List Route) :
    (routeEvents known seen rs).countP (Event.tells .operation) =
      repeats keys (rs.map pathKey) := by
  induction rs generalizing seen keys with
  | nil => rfl
  | cons r rs ih =>
    have hnext : ∀ k, k ∈ pathKey r :: keys ↔
        k ∈ (seen.insert (pathKey r) r.operationId).keys := by
      intro k
      rw [OrderedMap.mem_keys_insert, List.mem_cons, hseen]
    rw [routeEvents, List.countP_append, List.countP_append, List.countP_append,
      Event.countP_tells_eq_zero fun _ he => loss?_of_mem_paramEvents he,
      Event.countP_tells_eq_zero fun _ he => loss?_of_mem_responseEvents he, ih _ _ hnext,
      countP_toList_get? fun _ => rfl, List.map_cons, repeats, Nat.zero_add]
    by_cases h : pathKey r ∈ keys
    · rw [if_pos h, if_pos ((hseen _).mp h)]
    · rw [if_neg h, if_neg fun h' => h ((hseen _).mpr h')]

theorem size_definitions (files : List FileRecords) :
    (definitions files).size = ((models files).map Model.name).eraseDups.length := by
  rw [OrderedMap.size_eq_length_keys, definitions, OrderedMap.keys_ofList]

/-- The number of operations of a document, over all paths and verbs. -/
def operationCount (m : OrderedMap Text (OrderedMap Text Operation)) : Nat :=
  (m.values.map OrderedMap.size).sum

theorem operationCount_insert (m : OrderedMap Text (OrderedMap Text Operation)) (p : Text)
    (ops : OrderedMap Text Operation) :
    operationCount (m.insert p ops) + ((m.get? p).map OrderedMap.size).getD 0 =
      operationCount m + ops.size := by
  unfold operationCount OrderedMap.values
  rw [List.map_map, List.map_map]
  exact OrderedMap.sum_put OrderedMap.size p ops m.entries

theorem mem_keys_operations_routesAt (rs : List Route) (p v : Text) :
    v ∈ (operations known (routesAt p rs)).keys ↔ (p, v) ∈ rs.map pathKey := by
  rw [keys_operations, List.mem_eraseDups]
  simp only [routesAt, List.mem_map, List.mem_filter, decide_eq_true_eq, pathKey, Prod.mk.injEq]
  constructor
  · rintro ⟨r, ⟨hr, hp⟩, hv⟩
    exact ⟨r, hr, hp, hv⟩
  · rintro ⟨r, hr, hp, hv⟩
    exact ⟨r, ⟨hr, hp⟩, hv⟩

/-- The operations of a document are as many as the distinct paths and verbs of its routes. -/
theorem operationCount_paths (rs : List Route) :
    operationCount (paths known rs) = (rs.map pathKey).eraseDups.length := by
  induction rs using List.reverseRecOn with
  | nil => rfl
  | append_singleton rs r ih =>
    have hinsert := operationCount_insert (paths known rs) (pathKey r).1
      ((((paths known rs).get? (pathKey r).1).getD ∅).insert (pathKey r).2 (.ofRoute known r))
    have hops : ((paths known rs).get? (pathKey r).1).getD ∅ =
        operations known (routesAt (pathKey r).1 rs) := by
      rw [get?_paths]
      by_cases hnil : routesAt (pathKey r).1 rs = []
      · rw [if_pos hnil, hnil]
        rfl
      · rw [if_neg hnil]
        rfl
    have hsize : (((paths known rs).get? (pathKey r).1).map OrderedMap.size).getD 0 =
        (operations known (routesAt (pathKey r).1 rs)).size := by
      rw [← hops]
      cases (paths known rs).get? (pathKey r).1 with
      | none => rfl
      | some ops => rfl
    rw [hsize, hops, OrderedMap.size_insert, ih] at hinsert
    rw [paths_concat, insertOperation, hops, List.map_append, List.map_singleton,
      eraseDups_concat]
    simp only [mem_keys_operations_routesAt] at hinsert
    by_cases hk : pathKey r ∈ rs.map pathKey
    · rw [if_pos hk] at hinsert ⊢
      omega
    · rw [if_neg hk] at hinsert ⊢
      rw [List.length_append, List.length_singleton]
      omega

theorem tells_of_mem_modelEvents {seen : OrderedMap Text Place} {ms : List Model} {e : Event}
    (h : e ∈ modelEvents seen ms) : e.tells .model = true := by
  induction ms generalizing seen with
  | nil => cases h
  | cons m ms ih =>
    simp only [modelEvents, List.mem_append, Option.mem_toList, Option.map_eq_some_iff] at h
    obtain ⟨place, -, rfl⟩ | h := h
    · rfl
    · exact ih h

theorem not_tells_of_mem_routeEvents {seen : OrderedMap (Text × Text) Text} {rs : List Route}
    {e : Event} (h : e ∈ routeEvents known seen rs) : e.tells .model = false := by
  induction rs generalizing seen with
  | nil => cases h
  | cons r rs ih =>
    simp only [routeEvents, List.mem_append, Option.mem_toList, Option.map_eq_some_iff] at h
    obtain ((h | h) | ⟨_, -, rfl⟩) | h := h
    · simp [Event.tells, loss?_of_mem_paramEvents h]
    · simp [Event.tells, loss?_of_mem_responseEvents h]
    · rfl
    · exact ih h

end Assembly

/-! ## Files, routes and documents -/

namespace Extraction

variable {sort : RecordKind} (config : Config) (source : SourceFile)

theorem countP_routeEvents :
    (routeEvents config source).countP (Event.tells (.block sort)) =
      if .route = sort then
        (blocks config source config.routeMarker).countP fun b =>
          !(Route.parse b.table (b.place source.path)).isOk
      else 0 :=
  countP_events config source _ fun _ _ _ he => Route.not_tells_of_mem_dropped he

theorem countP_modelEvents :
    (modelEvents config source).countP (Event.tells (.block sort)) =
      if .model = sort then
        (blocks config source config.modelMarker).countP fun b =>
          !(Model.parse config.declarationStyle source.lines b.table (b.place source.path)).isOk
      else 0 :=
  countP_events config source _ fun _ _ _ he => Model.not_tells_of_mem_passedOver he

end Extraction

theorem FileRecords.length_add_losses (config : Config) (source : SourceFile) :
    (ofSource config source).routes.length +
        Event.losses (.block .route) (events config source) =
      (CommentBlock.markedStarts config.commentStart config.routeMarker source.lines).length ∧
    (ofSource config source).models.length +
        Event.losses (.block .model) (events config source) =
      (CommentBlock.markedStarts config.commentStart config.modelMarker source.lines).length := by
  simp only [Event.losses_eq_countP, events, List.countP_append, Extraction.countP_routeEvents,
    Extraction.countP_modelEvents, ← CommentBlock.length_marked, reduceCtorEq, if_true, if_false,
    Nat.zero_add, Nat.add_zero]
  exact ⟨length_filterMap_toOption _ _, length_filterMap_toOption _ _⟩

theorem Route.length_add_losses {table : DirectiveTable} {place : Place} {r : Route}
    (h : parse table place = .ok r) :
    r.params.length + Event.losses .param (dropped table place) =
      (table.arguments .param).length ∧
    r.responses.length + Event.losses .response (dropped table place) =
      (table.arguments .response).length ∧
    Event.losses .tags (dropped table place) =
      (table.arguments .tag).countP fun a => !(parseTagList a).isOk := by
  obtain ⟨hsignature, hparams, hresponses, -⟩ := of_parse h
  obtain ⟨hlostParams, hlostResponses, hlostTags⟩ := countP_dropped place hsignature
  rw [Event.losses_eq_countP, Event.losses_eq_countP, Event.losses_eq_countP, hlostParams,
    hlostResponses, hlostTags, hparams, hresponses]
  exact ⟨length_filterMap_toOption _ _, length_filterMap_toOption _ _, rfl⟩

theorem Route.map_ok_sublist {table : DirectiveTable} {place : Place} {r : Route}
    (h : parse table place = .ok r) :
    (r.params.map Except.ok).Sublist ((table.arguments .param).map Param.parse) ∧
    (r.responses.map Except.ok).Sublist ((table.arguments .response).map Response.parse) := by
  obtain ⟨-, hparams, hresponses, -⟩ := of_parse h
  rw [hparams, hresponses]
  exact ⟨map_filterMap_toOption_sublist _ _, map_filterMap_toOption_sublist _ _⟩

/-- The tags of a route are those of the last list that can be read. -/
theorem Route.lastTags_of_parse {table : DirectiveTable} {place : Place} {r : Route}
    (h : parse table place = .ok r) :
    ((∀ a ∈ table.arguments .tag, (parseTagList a).isOk = false) ∧ r.tags = []) ∨
    ∃ before a after, table.arguments .tag = before ++ a :: after ∧
      parseTagList a = .ok r.tags ∧ ∀ b ∈ after, (parseTagList b).isOk = false := by
  rw [(of_parse h).2.2.2]
  cases hlast : ((table.arguments .tag).filterMap fun a => (parseTagList a).toOption).getLast? with
  | none => exact .inl ⟨getLast?_filterMap_toOption_eq_none hlast, rfl⟩
  | some ts => exact .inr (getLast?_filterMap_toOption_eq_some hlast)

namespace Assembly

theorem size_definitions_add_losses (files : List FileRecords) :
    (definitions files).size + Event.losses .model (events files) = (models files).length := by
  have hroutes : (routeEvents (definitions files).contains ∅ (routes files)).countP
      (Event.tells .model) = 0 := by
    rw [List.countP_eq_zero]
    intro e he
    simp [not_tells_of_mem_routeEvents he]
  have hkeys := repeats_add_length [] ((models files).map Model.name)
  rw [List.filter_eq_self.mpr (by simp), List.length_map] at hkeys
  rw [Event.losses_eq_countP, events, List.countP_append, List.countP_append, hroutes,
    countP_modelEvents ∅ [] (fun _ => Iff.rfl), size_definitions]
  simp only [List.countP_cons, List.countP_nil, Event.tells, Event.loss?]
  simp
  omega

theorem operationCount_add_losses (files : List FileRecords) :
    operationCount (paths (definitions files).contains (routes files)) +
      Event.losses .operation (events files) = (routes files).length := by
  have hmodels : (modelEvents ∅ (models files)).countP (Event.tells .operation) = 0 := by
    rw [List.countP_eq_zero]
    intro e he
    have hmodel := tells_of_mem_modelEvents he
    unfold Event.tells at hmodel ⊢
    simp_all
  have hkeys := repeats_add_length [] ((routes files).map pathKey)
  rw [List.filter_eq_self.mpr (by simp), List.length_map] at hkeys
  rw [Event.losses_eq_countP, events, List.countP_append, List.countP_append, hmodels,
    countP_routeEvents ∅ [] (fun _ => Iff.rfl), operationCount_paths]
  simp only [List.countP_cons, List.countP_nil, Event.tells, Event.loss?]
  simp
  omega

end Assembly

/-- **Nothing goes without a warning.**  The records of a file, with the warnings about blocks that
make none, are as many as the first lines of blocks. The parameters and responses of a route, with
the warnings about them, are as many as the arguments that ask for them and keep their order. There
is one warning for each list of tags that cannot be read, and the tags of the route are those of the
last list that can be. The definitions and the operations of a document, with the warnings about
replaced ones, are as many as the models and the routes of all files. -/
theorem warnings_conserve :
    (∀ (config : Config) (source : SourceFile),
      let records := FileRecords.ofSource config source
      let events := FileRecords.events config source
      records.routes.length + Event.losses (.block .route) events =
        (CommentBlock.markedStarts config.commentStart config.routeMarker source.lines).length ∧
      records.models.length + Event.losses (.block .model) events =
        (CommentBlock.markedStarts config.commentStart config.modelMarker source.lines).length) ∧
    (∀ (table : DirectiveTable) (place : Place) (r : Route), Route.parse table place = .ok r →
      let events := Route.dropped table place
      (r.params.length + Event.losses .param events = (table.arguments .param).length ∧
        r.responses.length + Event.losses .response events =
          (table.arguments .response).length ∧
        Event.losses .tags events =
          (table.arguments .tag).countP fun a => !(parseTagList a).isOk) ∧
      (r.params.map Except.ok).Sublist ((table.arguments .param).map Param.parse) ∧
      (r.responses.map Except.ok).Sublist ((table.arguments .response).map Response.parse) ∧
      (((∀ a ∈ table.arguments .tag, (parseTagList a).isOk = false) ∧ r.tags = []) ∨
        ∃ before a after, table.arguments .tag = before ++ a :: after ∧
          parseTagList a = .ok r.tags ∧ ∀ b ∈ after, (parseTagList b).isOk = false)) ∧
    ∀ (m : Metadata) (files : List FileRecords),
      let d := Document.assemble m files
      let events := Assembly.events files
      d.definitions.size + Event.losses .model events =
        (files.flatMap FileRecords.models).length ∧
      Assembly.operationCount d.paths + Event.losses .operation events =
        (files.flatMap FileRecords.routes).length := by
  refine ⟨fun config source => ?_, fun table place r h => ?_, fun m files => ?_⟩
  · exact FileRecords.length_add_losses config source
  · obtain ⟨hparams, hresponses⟩ := Route.map_ok_sublist h
    exact ⟨Route.length_add_losses h, hparams, hresponses, Route.lastTags_of_parse h⟩
  · exact ⟨Assembly.size_definitions_add_losses files,
      Assembly.operationCount_add_losses files⟩

/-- A route with arguments that can be read and arguments that cannot. -/
def partlyRefused : DirectiveTable :=
  .ofLines ["@route Get GET /orders", "@param id", "@param id int in:path",
    "@param id int in:cookie", "@return 200 Order", "@return ok", "@tag ,", "@tag shop", "@tags"]

/-- A route and a model with blocks that make none. -/
def refusedBlocks : SourceFile :=
  ⟨"orders.go", ["// @route Get GET /orders", "", "// @route Put PUT", "", "// @model Order",
    "\x7d", "// @model "]⟩

/-- Two of the arguments and two lists of tags are refused, one block of each kind, and a model and
an operation are replaced by those of another file. -/
theorem warnings_conserve_partlyRefused :
    (∃ r, Route.parse partlyRefused ⟨"orders.go", 9⟩ = .ok r ∧
      (let events := Route.dropped partlyRefused ⟨"orders.go", 9⟩
       (r.params.length + Event.losses .param events = (partlyRefused.arguments .param).length ∧
         r.responses.length + Event.losses .response events =
           (partlyRefused.arguments .response).length ∧
         Event.losses .tags events =
           (partlyRefused.arguments .tag).countP fun a => !(parseTagList a).isOk) ∧
       (r.params.map Except.ok).Sublist ((partlyRefused.arguments .param).map Param.parse) ∧
       (r.responses.map Except.ok).Sublist
         ((partlyRefused.arguments .response).map Response.parse) ∧
       (((∀ a ∈ partlyRefused.arguments .tag, (parseTagList a).isOk = false) ∧ r.tags = []) ∨
         ∃ before a after, partlyRefused.arguments .tag = before ++ a :: after ∧
           parseTagList a = .ok r.tags ∧ ∀ b ∈ after, (parseTagList b).isOk = false)) ∧
      r.tags = ["shop".toList] ∧
      Event.losses .param (Route.dropped partlyRefused ⟨"orders.go", 9⟩) = 2 ∧
      Event.losses .tags (Route.dropped partlyRefused ⟨"orders.go", 9⟩) = 2) ∧
    (let records := FileRecords.ofSource {} refusedBlocks
     let events := FileRecords.events {} refusedBlocks
     (records.routes.length + Event.losses (.block .route) events = 2 ∧
       Event.losses (.block .route) events = 1) ∧
     records.models.length + Event.losses (.block .model) events = 2 ∧
       Event.losses (.block .model) events = 1) ∧
    (let d := Document.assemble .default [petShop, clinic]
     let events := Assembly.events [petShop, clinic]
     (d.definitions.size + Event.losses .model events = 3 ∧ Event.losses .model events = 1) ∧
     Assembly.operationCount d.paths + Event.losses .operation events = 4 ∧
       Event.losses .operation events = 1) := by
  obtain ⟨hblocks, hroute, hfiles⟩ := warnings_conserve
  obtain ⟨hroutes, hmodels⟩ := hblocks {} refusedBlocks
  obtain ⟨hdefinitions, hoperations⟩ := hfiles .default [petShop, clinic]
  obtain ⟨r, hr⟩ : ∃ r, Route.parse partlyRefused ⟨"orders.go", 9⟩ = .ok r := ⟨_, rfl⟩
  have htags : (Route.parse partlyRefused ⟨"orders.go", 9⟩).map Route.tags =
      .ok ["shop".toList] := by
    decide +kernel
  rw [hr] at htags
  refine ⟨⟨r, hr, hroute _ _ r hr, Except.ok.inj htags, by decide +kernel, by decide +kernel⟩,
    ⟨⟨hroutes.trans (by decide +kernel), by decide +kernel⟩,
      hmodels.trans (by decide +kernel), by decide +kernel⟩,
    ⟨hdefinitions.trans (by decide +kernel), by decide +kernel⟩,
    hoperations.trans (by decide +kernel), by decide +kernel⟩

end ApiAnnotations

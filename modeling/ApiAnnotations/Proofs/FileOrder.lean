import ApiAnnotations.Proofs.Replacement

/-! # The order of files

As long as no two files have a model or an operation in common, it does not matter in which order
the files are read, except for the order in which the document lists what it says.

* `tags_eq_append` : the tags of a document are the declared ones and, behind them, the other tags
  of its routes, each once.
* `lastWith_flatMap_of_perm` : the last element with a key does not depend on the order of parts
  that have no key in common.
* `assemble_of_perm` : documents of the same files in two orders agree. -/

namespace ApiAnnotations

/-- Two maps with the same keys, in any order, and related values. -/
def OrderedMap.Alike {κ ν : Type} [DecidableEq κ] (r : ν → ν → Prop) (m m' : OrderedMap κ ν) :
    Prop :=
  ∀ k, Option.Rel r (m.get? k) (m'.get? k)

theorem OrderedMap.rel_eq_refl {ν : Type} (v : Option ν) : Option.Rel Eq v v := by
  cases v with
  | none => exact .none
  | some v => exact .some rfl

namespace Assembly

/-- No two files have a model of the same name, or a route with the same path and verb. -/
def Apart (files : List FileRecords) : Prop :=
  files.Pairwise fun f g =>
    (∀ a ∈ f.models, ∀ b ∈ g.models, a.name ≠ b.name) ∧
      ∀ a ∈ f.routes, ∀ b ∈ g.routes, pathKey a ≠ pathKey b

/-! ## Tags -/

theorem any_name_iff {ts : List TagInfo} {n : Text} :
    ts.any (fun t => decide (t.name = n)) = true ↔ n ∈ ts.map TagInfo.name := by
  simp

theorem addTag_eq (ts : List TagInfo) (n : Text) :
    addTag ts n = if n ∈ ts.map TagInfo.name then ts else ts ++ [.bare n] := by
  unfold addTag
  simp only [any_name_iff]

/-- The names that are not declared. -/
def undeclared (declared : List TagInfo) (names : List Text) : List Text :=
  names.filter fun n => !declared.any fun t => decide (t.name = n)

theorem undeclared_concat (declared : List TagInfo) (names : List Text) (n : Text) :
    undeclared declared (names ++ [n]) =
      if n ∈ declared.map TagInfo.name then undeclared declared names
      else undeclared declared names ++ [n] := by
  unfold undeclared
  rw [List.filter_append, List.filter_cons, List.filter_nil]
  simp only [Bool.not_eq_eq_eq_not, Bool.not_true, ← Bool.not_eq_true, any_name_iff]
  by_cases hn : n ∈ declared.map TagInfo.name
  · rw [if_neg (not_not_intro hn), if_pos hn, List.append_nil]
  · rw [if_pos hn, if_neg hn]

theorem mem_names_append_bare (declared : List TagInfo) (names : List Text) (n : Text) :
    n ∈ (declared ++ (undeclared declared names).eraseDups.map TagInfo.bare).map TagInfo.name ↔
      n ∈ declared.map TagInfo.name ∨ n ∈ undeclared declared names := by
  have hnames : ((undeclared declared names).eraseDups.map TagInfo.bare).map TagInfo.name =
      (undeclared declared names).eraseDups := by
    rw [List.map_map]
    exact List.map_id _
  rw [List.map_append, hnames, List.mem_append, List.mem_eraseDups]

theorem foldl_addTag (declared : List TagInfo) (names : List Text) :
    names.foldl addTag declared =
      declared ++ (undeclared declared names).eraseDups.map TagInfo.bare := by
  induction names using List.reverseRecOn with
  | nil => simp [undeclared]
  | append_singleton names n ih =>
    rw [List.foldl_append, List.foldl_cons, List.foldl_nil, ih, addTag_eq, undeclared_concat]
    simp only [mem_names_append_bare]
    by_cases hn : n ∈ declared.map TagInfo.name
    · rw [if_pos (.inl hn), if_pos hn]
    · rw [if_neg hn, eraseDups_concat]
      by_cases hseen : n ∈ undeclared declared names
      · rw [if_pos (.inr hseen), if_pos hseen]
      · rw [if_neg (by simp [hn, hseen]), if_neg hseen, List.map_append, List.append_assoc]
        rfl

/-- **The tags of a document** are the declared ones, and behind them the others of the routes. -/
theorem tags_eq_append (declared : List TagInfo) (rs : List Route) :
    tags declared rs =
      declared ++ (undeclared declared (rs.flatMap Route.tags)).eraseDups.map TagInfo.bare :=
  foldl_addTag declared _

/-! ## Parts in another order -/

section

variable {α β φ κ : Type}

/-- Lists put together in another order are the same if all but one of them are empty. -/
theorem flatMap_eq_of_perm {f : φ → List α} {xs ys : List φ} (h : xs.Perm ys)
    (hapart : xs.Pairwise fun x y => f x = [] ∨ f y = []) : xs.flatMap f = ys.flatMap f := by
  induction h with
  | nil => rfl
  | cons x _ ih => rw [List.flatMap_cons, List.flatMap_cons, ih (List.pairwise_cons.mp hapart).2]
  | swap x y xs =>
    obtain hx | hy := (List.pairwise_cons.mp hapart).1 x (List.mem_cons_self ..)
    · simp [hx]
    · simp [hy]
  | trans h₁ _ ih₁ ih₂ =>
    exact (ih₁ hapart).trans (ih₂ ((h₁.pairwise_iff fun h => h.symm).mp hapart))

variable [DecidableEq κ]

/-- **The last element with a key** among parts with no key in common is the same in every order of
the parts. -/
theorem lastWith_flatMap_of_perm {key : α → κ} {part : φ → List α} {xs ys : List φ}
    (h : xs.Perm ys)
    (hapart : xs.Pairwise fun x y => ∀ a ∈ part x, ∀ b ∈ part y, key a ≠ key b) (k : κ) :
    lastWith key k (xs.flatMap part) = lastWith key k (ys.flatMap part) := by
  unfold lastWith
  rw [List.filter_flatMap, List.filter_flatMap]
  congr 1
  refine flatMap_eq_of_perm h (hapart.imp fun {x y} hxy => ?_)
  by_cases hx : (part x).filter (fun a => decide (key a = k)) = []
  · exact .inl hx
  · obtain ⟨a, ha⟩ := List.exists_mem_of_ne_nil _ hx
    simp only [List.mem_filter, decide_eq_true_eq] at ha
    refine .inr (List.filter_eq_nil_iff.mpr fun b hb => ?_)
    simpa [← ha.2] using (hxy a ha.1 b hb).symm

end

/-! ## Documents -/

variable {files files' : List FileRecords}

theorem get?_definitions_of_perm (h : files.Perm files') (hapart : Apart files) (n : Text) :
    (definitions files).get? n = (definitions files').get? n := by
  have hlast : lastWith Model.name n (models files) = lastWith Model.name n (models files') :=
    lastWith_flatMap_of_perm h (hapart.imp fun hfg => hfg.1) n
  unfold definitions
  rw [OrderedMap.get?_ofList, OrderedMap.get?_ofList, hlast]

theorem definitions_alike_of_perm (h : files.Perm files') (hapart : Apart files) :
    (definitions files).Alike Eq (definitions files') := by
  intro n
  rw [get?_definitions_of_perm h hapart]
  exact OrderedMap.rel_eq_refl _

theorem contains_definitions_of_perm (h : files.Perm files') (hapart : Apart files) :
    (definitions files).contains = (definitions files').contains := by
  funext n
  unfold OrderedMap.contains
  rw [get?_definitions_of_perm h hapart]

theorem get?_operations_of_perm (h : files.Perm files') (hapart : Apart files)
    (known : Text → Bool) (p v : Text) :
    (operations known (routesAt p (routes files))).get? v =
      (operations known (routesAt p (routes files'))).get? v := by
  have hlast : lastWith pathKey (p, v) (routes files) = lastWith pathKey (p, v) (routes files') :=
    lastWith_flatMap_of_perm h (hapart.imp fun hfg => hfg.2) (p, v)
  unfold operations
  rw [OrderedMap.get?_ofList, OrderedMap.get?_ofList, lastWith_routesAt, lastWith_routesAt, hlast]

theorem paths_alike_of_perm (h : files.Perm files') (hapart : Apart files)
    (known : Text → Bool) :
    (paths known (routes files)).Alike (OrderedMap.Alike Eq) (paths known (routes files')) := by
  intro p
  have hroutes : (routesAt p (routes files)).Perm (routesAt p (routes files')) :=
    (h.flatMap_right _).filter _
  rw [get?_paths, get?_paths]
  by_cases hnil : routesAt p (routes files) = []
  · have hnil' : routesAt p (routes files') = [] := (hnil ▸ hroutes).nil_eq.symm
    rw [if_pos hnil, if_pos hnil']
    exact .none
  · have hnil' : routesAt p (routes files') ≠ [] := fun h' => hnil (h' ▸ hroutes).eq_nil
    rw [if_neg hnil, if_neg hnil']
    refine .some fun v => ?_
    rw [get?_operations_of_perm h hapart]
    exact OrderedMap.rel_eq_refl _

end Assembly

/-- **The order of files.**  Let no model name, and no path and verb, occur in two files. Then the
documents of the files in two orders agree: the same definitions, and the same operations for each
path and verb, in some order; and the declared tags, with the others behind them in some order. -/
theorem assemble_of_perm (m : Metadata) {files files' : List FileRecords}
    (h : files.Perm files') (hapart : Assembly.Apart files) :
    let d := Document.assemble m files
    let d' := Document.assemble m files'
    d.definitions.Alike Eq d'.definitions ∧
    d.paths.Alike (OrderedMap.Alike Eq) d'.paths ∧
    ∃ ts ts', d.tags = m.tags ++ ts ∧ d'.tags = m.tags ++ ts' ∧ ts.Perm ts' := by
  intro d d'
  refine ⟨Assembly.definitions_alike_of_perm h hapart, ?_, _, _,
    Assembly.tags_eq_append m.tags _, Assembly.tags_eq_append m.tags _, ?_⟩
  · show (Assembly.paths (Assembly.definitions files).contains _).Alike _
      (Assembly.paths (Assembly.definitions files').contains _)
    rw [Assembly.contains_definitions_of_perm h hapart]
    exact Assembly.paths_alike_of_perm h hapart _
  · have hnames : ((Assembly.routes files).flatMap Route.tags).Perm
        ((Assembly.routes files').flatMap Route.tags) :=
      (h.flatMap_right _).flatMap_right _
    exact (perm_eraseDups (hnames.filter _)).map _

/-- A route that replaces another of the same file, with a parameter of a type declared nowhere in
the file. -/
def shopRoutes : FileRecords :=
  .ofSource {} ⟨"routes.go", ["// @route Show GET /orders/:id", "// @tag old", "",
    "// @route Read get /orders/\x7bid\x7d", "// @param order Order in:body", "// @tag shop,new"]⟩

/-- The type, and another route of the same path. -/
def shopModels : FileRecords :=
  .ofSource {} ⟨"models.go", ["// @model Order", "type Order struct \x7b", "\tId int", "\x7d",
    "// @route Keep POST /orders/:id", "// @tag shop,store"]⟩

theorem assemble_of_perm_shop :
    ([shopRoutes, shopModels].Perm [shopModels, shopRoutes] ∧
      Assembly.Apart [shopRoutes, shopModels]) ∧
    (let d := Document.assemble .default [shopRoutes, shopModels]
     let d' := Document.assemble .default [shopModels, shopRoutes]
     d.definitions.Alike Eq d'.definitions ∧
     d.paths.Alike (OrderedMap.Alike Eq) d'.paths ∧
     ∃ ts ts', d.tags = Metadata.default.tags ++ ts ∧ d'.tags = Metadata.default.tags ++ ts' ∧
       ts.Perm ts') ∧
    ((Document.assemble .default [shopRoutes, shopModels]).operation?
      "/orders/\x7bid\x7d" "get").map (fun op => op.parameters.map fun p => p.schema.isSome) =
        some [true] := by
  have hperm : [shopRoutes, shopModels].Perm [shopModels, shopRoutes] := .swap ..
  have hapart : Assembly.Apart [shopRoutes, shopModels] := by
    unfold Assembly.Apart
    decide +kernel
  exact ⟨⟨hperm, hapart⟩, assemble_of_perm .default hperm hapart, by decide +kernel⟩

end ApiAnnotations

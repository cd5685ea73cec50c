import ApiAnnotations.Workspace
import Mathlib.Data.List.Forall2

/-! # The order of entries

A directory may be listed in any order. Trees that differ in nothing else have the same files at the
same paths.

* `Tree.Proper` : in each folder the names are distinct, and each is a single component.
* `Tree.Reordered` : the least relation under which the entries of a folder can change places.
* `Tree.Reordered.at?`, `Tree.Reordered.follow_eq` : paths lead to the same place, and to trees that
  are reordered again. -/

namespace ApiAnnotations

/-- A name that is one component of a path and stands neither for its own folder nor for the one
above. -/
structure Path.IsEntryName (name : Text) : Prop where
  no_slash : '/' ∉ name
  not_idle : Path.isIdle name = false
  not_upward : name ≠ Path.upward

instance (name : Text) : Decidable (Path.IsEntryName name) :=
  decidable_of_iff (List.contains name '/' = false ∧ Path.isIdle name = false ∧ name ≠ Path.upward)
    ⟨fun ⟨h, hidle, hupward⟩ => ⟨by simpa using h, hidle, hupward⟩,
      fun ⟨h, hidle, hupward⟩ => ⟨by simpa using h, hidle, hupward⟩⟩

namespace Tree

variable {α : Type}

/-- The names in each folder are distinct, and each can be the name of an entry. -/
inductive Proper : Tree α → Prop
  | file (a : α) : Proper (.file a)
  | folder {es : List (Text × Tree α)} : (es.map Prod.fst).Nodup →
      (∀ e ∈ es, Path.IsEntryName e.1) → (∀ e ∈ es, Proper e.2) → Proper (.folder es)

/-- The same tree with the entries of any of its folders in another order. -/
inductive Reordered : Tree α → Tree α → Prop
  | refl (t : Tree α) : Reordered t t
  | entries {es fs : List (Text × Tree α)} : es.Perm fs → Reordered (.folder es) (.folder fs)
  | inside {before after : List (Text × Tree α)} {name : Text} {t u : Tree α} : Reordered t u →
      Reordered (.folder (before ++ (name, t) :: after)) (.folder (before ++ (name, u) :: after))
  | trans {t u v : Tree α} : Reordered t u → Reordered u v → Reordered t v

/-! ## Proper folders -/

section

variable {es fs : List (Text × Tree α)} {t u : Tree α} {name : Text}

theorem proper_folder_iff :
    Proper (.folder es) ↔
      (es.map Prod.fst).Nodup ∧ ∀ e ∈ es, Path.IsEntryName e.1 ∧ Proper e.2 := by
  constructor
  · intro h
    cases h with
    | folder hnodup hnames hproper => exact ⟨hnodup, fun e he => ⟨hnames e he, hproper e he⟩⟩
  · rintro ⟨hnodup, hentries⟩
    exact .folder hnodup (fun e he => (hentries e he).1) fun e he => (hentries e he).2

/-- The entry that a name leads to is the only one of that name. -/
theorem Proper.child?_eq_some_iff (h : Proper (.folder es)) :
    child? (.folder es) name = some t ↔ (name, t) ∈ es := by
  have hnodup := (proper_folder_iff.mp h).1
  clear h
  unfold child? entries
  induction es with
  | nil => simp
  | cons e es ih =>
    obtain ⟨key, u⟩ := e
    rw [List.map_cons, List.nodup_cons] at hnodup
    rw [List.lookup_cons, List.mem_cons, Prod.mk.injEq]
    by_cases hkey : name = key
    · subst hkey
      have habsent : (name, t) ∉ es := fun hmem => hnodup.1 (List.mem_map.mpr ⟨_, hmem, rfl⟩)
      simp [habsent, eq_comm]
    · have hbeq : (name == key) = false := beq_eq_false_iff_ne.mpr hkey
      simp [hbeq, hkey, ih hnodup.2]

theorem Proper.child (h : Proper t) (hu : t.child? name = some u) :
    Path.IsEntryName name ∧ Proper u := by
  cases t with
  | file a => cases hu
  | folder es => exact (proper_folder_iff.mp h).2 _ (h.child?_eq_some_iff.mp hu)

/-- The order of the entries does not matter for the one of a name. -/
theorem Proper.child?_of_perm (h : Proper (.folder es)) (h' : Proper (.folder fs))
    (hperm : es.Perm fs) : child? (.folder fs) name = child? (.folder es) name := by
  refine Option.ext fun t => ?_
  rw [h.child?_eq_some_iff, h'.child?_eq_some_iff, hperm.mem_iff]

end

/-! ## Reordered trees -/

/-- Trees that are both missing, or reordered. -/
abbrev Reordered? : Option (Tree α) → Option (Tree α) → Prop := Option.Rel Reordered

namespace Reordered?

variable {t? u? v? : Option (Tree α)}

theorem refl (t? : Option (Tree α)) : Reordered? t? t? := by
  cases t? with
  | none => exact .none
  | some t => exact .some (.refl t)

theorem trans (h : Reordered? t? u?) (h' : Reordered? u? v?) : Reordered? t? v? := by
  cases h with
  | none => exact h'
  | some htu =>
    cases h' with
    | some huv => exact .some (htu.trans huv)

theorem isSome_eq (h : Reordered? t? u?) : u?.isSome = t?.isSome := by
  cases h <;> rfl

/-- What does not depend on the order of entries in a tree does not in one that may be missing. -/
theorem bind_eq {β : Type} {f : Tree α → Option β} (h : Reordered? t? u?)
    (hf : ∀ t u, Reordered t u → f u = f t) : u?.bind f = t?.bind f := by
  cases h with
  | none => rfl
  | some htu => exact hf _ _ htu

theorem bind {f : Tree α → Option (Tree α)} (h : Reordered? t? u?)
    (hf : ∀ t u, t? = .some t → Reordered t u → Reordered? (f t) (f u)) :
    Reordered? (t?.bind f) (u?.bind f) := by
  cases h with
  | none => exact .none
  | some htu => exact hf _ _ rfl htu

end Reordered?

namespace Reordered

variable {t u : Tree α} {es fs gs : List (Text × Tree α)}

/-- All folders of a tree can be reordered at once. -/
theorem folder (h : List.Forall₂ (fun e f => e.1 = f.1 ∧ Reordered e.2 f.2) es fs)
    (hperm : fs.Perm gs) : Reordered (.folder es) (.folder gs) := by
  have hinside : ∀ before, Reordered (.folder (before ++ es)) (.folder (before ++ fs)) := by
    clear hperm
    induction h with
    | nil => exact fun before => .refl _
    | @cons e f es fs hef _ ih =>
      intro before
      obtain ⟨name, t⟩ := e
      obtain ⟨_, u⟩ := f
      obtain ⟨rfl, htu⟩ := hef
      refine .trans (.inside htu) ?_
      simpa using ih (before ++ [(name, u)])
  exact (hinside []).trans (.entries hperm)

theorem proper (h : Reordered t u) (ht : t.Proper) : u.Proper := by
  induction h with
  | refl t => exact ht
  | entries hperm =>
    obtain ⟨hnodup, hentries⟩ := proper_folder_iff.mp ht
    refine proper_folder_iff.mpr ⟨(hperm.map Prod.fst).nodup_iff.mp hnodup, fun e he => ?_⟩
    exact hentries e (hperm.mem_iff.mpr he)
  | inside _ ih =>
    rw [proper_folder_iff, List.forall_mem_append, List.forall_mem_cons] at ht ⊢
    obtain ⟨hnodup, hbefore, ⟨hname, hproper⟩, hafter⟩ := ht
    exact ⟨by simpa using hnodup, hbefore, ⟨hname, ih hproper⟩, hafter⟩
  | trans _ _ ih ih' => exact ih' (ih ht)

theorem isFolder_eq (h : Reordered t u) : u.isFolder = t.isFolder := by
  induction h with
  | refl | entries | inside => rfl
  | trans _ _ ih ih' => exact ih'.trans ih

theorem contents?_eq (h : Reordered t u) : u.contents? = t.contents? := by
  induction h with
  | refl | entries | inside => rfl
  | trans _ _ ih ih' => exact ih'.trans ih

theorem child? (h : Reordered t u) (ht : t.Proper) (name : Text) :
    Reordered? (t.child? name) (u.child? name) := by
  induction h with
  | refl t => exact .refl _
  | entries hperm =>
    rw [ht.child?_of_perm ((Reordered.entries hperm).proper ht) hperm]
    exact .refl _
  | @inside before after key t u h _ =>
    simp only [Tree.child?, Tree.entries, List.lookup_append, List.lookup_cons]
    cases before.lookup name with
    | some v => exact .refl _
    | none =>
      cases name == key with
      | true => exact .some h
      | false => exact .refl _
  | trans h _ ih ih' => exact (ih ht).trans (ih' (h.proper ht))

theorem at? (h : Reordered t u) (ht : t.Proper) (place : List Text) :
    Reordered? (t.at? place) (u.at? place) := by
  induction place generalizing t u with
  | nil => exact .some h
  | cons name place ih =>
    exact (h.child? ht name).bind fun v v' hv hreordered => ih hreordered (ht.child hv).2

/-! ## Paths -/

theorem hasFolder_eq (h : Reordered t u) (ht : t.Proper) (place : List Text) :
    u.hasFolder place = t.hasFolder place := by
  have hisFolder := (h.at? ht place).bind_eq fun _ _ hreordered =>
    congrArg some hreordered.isFolder_eq
  rw [hasFolder, hasFolder, Option.map_eq_bind, Option.map_eq_bind]
  exact congrArg (Option.getD · false) hisFolder

theorem follow_eq (h : Reordered t u) (ht : t.Proper) (place components : List Text) :
    u.follow place components = t.follow place components := by
  induction components generalizing place with
  | nil => rfl
  | cons c cs ih =>
    simp only [follow, h.hasFolder_eq ht, (h.at? ht (place ++ [c])).isSome_eq, ih]

/-- **Reordered trees have the same paths**, which lead to reordered trees. -/
theorem find? (h : Reordered t u) (ht : t.Proper) (start : List Text) (path : Text) :
    Reordered? (t.find? start path) (u.find? start path) := by
  have hlocate : u.locate? start path = t.locate? start path := by
    unfold locate?
    rw [h.follow_eq ht]
  unfold Tree.find?
  rw [hlocate]
  cases t.locate? start path with
  | none => exact .none
  | some place => exact h.at? ht place

end Reordered

/-! ## Places in a proper tree -/

section

variable {t u : Tree α} {place : List Text}

theorem Proper.at? (h : Proper t) (hu : t.at? place = some u) :
    Proper u ∧ ∀ name ∈ place, Path.IsEntryName name := by
  induction place generalizing t with
  | nil => exact ⟨Option.some.inj hu ▸ h, nofun⟩
  | cons name place ih =>
    obtain ⟨v, hv, hplace⟩ := Option.bind_eq_some_iff.mp hu
    obtain ⟨hname, hproper⟩ := h.child hv
    obtain ⟨hu, hnames⟩ := ih hproper hplace
    exact ⟨hu, List.forall_mem_cons.mpr ⟨hname, hnames⟩⟩

theorem Proper.find? {start : List Text} {path : Text} (h : Proper t)
    (hu : t.find? start path = some u) : Proper u := by
  obtain ⟨place, -, hat⟩ := Option.bind_eq_some_iff.mp hu
  exact (h.at? hat).1

end

end Tree

end ApiAnnotations

import ApiAnnotations.Proofs.EntryOrder
import ApiAnnotations.Proofs.Text.ByteOrder
import ApiAnnotations.Proofs.Text.Lines
import ApiAnnotations.Scan
import Mathlib.Data.List.Nodup

/-! # The source files of a tree

Which files of a tree are listed, and in what order.

* `Path.HasExtension name e` : `e` is what follows the last point of a name, and something is before
  that point.
* `Scan.IsSource extensions t names` : the names lead to a file of the tree that has one of the
  extensions, through folders none of which is to be skipped.
* `Scan.mem_sources` : these files are listed.
* `Scan.sources_pairwise` : each is listed once, in the order of the names.
* `Scan.sources_of_reordered` : the order of the entries does not matter. -/

namespace ApiAnnotations

/-! ## Extensions -/

namespace Path

/-- What follows the last point of a name; the point is not the first character. -/
def HasExtension (name e : Text) : Prop :=
  ∃ stem, stem ≠ [] ∧ name = stem ++ '.' :: e ∧ '.' ∉ e

theorem extension?_of_not_mem {name : Text} (h : '.' ∉ name) : extension? name = none := by
  unfold extension?
  split
  · rfl
  · rw [Text.splitOn_of_not_mem h]

theorem extension?_append {stem e : Text} (h : '.' ∉ e) (hname : stem ++ '.' :: e ≠ upward) :
    extension? (stem ++ '.' :: e) = if stem = [] then none else some e := by
  have hname : (stem ++ '.' :: e == upward) = false := beq_eq_false_iff_ne.mpr hname
  rw [extension?, hname, Text.splitOn_append_cons, Text.splitOn_of_not_mem h]
  by_cases hstem : stem = []
  · subst hstem
    rfl
  · rw [if_neg hstem]
    have hjoin := Text.joinWith_splitOn '.' stem
    cases hpieces : Text.splitOn '.' stem with
    | nil => exact absurd hpieces (Text.splitWhere_ne_nil _ _)
    | cons p ps =>
      rw [hpieces] at hjoin
      cases ps with
      | nil =>
        cases p with
        | nil => exact absurd hjoin.symm hstem
        | cons c p => rfl
      | cons q ps =>
        have hlast : (q :: (ps ++ [e])).getLast? = some e := List.getLast?_concat (l := q :: ps)
        simpa using hlast

/-- **Extensions.**  The extension of the name of an entry is what follows the last point. -/
theorem extension?_eq_some_iff {name e : Text} (h : name ≠ upward) :
    extension? name = some e ↔ HasExtension name e := by
  constructor
  · intro he
    by_cases hdot : '.' ∈ name
    · obtain ⟨suffix, stem, hsplit, hsuffix⟩ :=
        List.eq_append_cons_of_mem (List.mem_reverse.mpr hdot)
      have hname : name = stem.reverse ++ '.' :: suffix.reverse := by
        rw [← List.reverse_reverse name, hsplit]
        simp
      rw [hname, extension?_append (by simpa using hsuffix) (hname ▸ h)] at he
      split at he
      · cases he
      next hstem =>
        obtain rfl := Option.some.inj he
        exact ⟨_, hstem, hname, by simpa using hsuffix⟩
    · rw [extension?_of_not_mem hdot] at he
      cases he
  · rintro ⟨stem, hstem, rfl, hdot⟩
    rw [extension?_append hdot h, if_neg hstem]

end Path

namespace Scan

variable {α : Type} {extensions : List Text} {t u : Tree α} {es : List (Text × Tree α)}
  {name : Text} {names : List Text}

theorem isWanted_iff (h : name ≠ Path.upward) :
    isWanted extensions name = true ↔ ∃ e ∈ extensions, Path.HasExtension name e := by
  unfold isWanted
  cases he : Path.extension? name with
  | none =>
    simp only [Bool.false_eq_true, false_iff, not_exists, not_and]
    intro e _ hext
    rw [(Path.extension?_eq_some_iff h).mpr hext] at he
    cases he
  | some e =>
    have hunique : ∀ e', Path.HasExtension name e' ↔ e = e' := fun e' => by
      rw [← Path.extension?_eq_some_iff h, he, Option.some.injEq]
    simp [hunique]

/-- A folder of this name is passed over, with all that is below it. -/
def IsSkipped (name : Text) : Prop :=
  name.head? = some '.' ∨ name = "vendor" ∨ name = "target" ∨ name = "node_modules"

theorem isSkipped_iff : isSkipped name = true ↔ IsSkipped name := by
  simp [isSkipped, skippedNames, IsSkipped]

/-! ## Contents -/

mutual

/-- What the files hold does not matter for what is listed. -/
theorem walk_map {β : Type} (f : α → β) : (t : Tree α) →
    walk extensions (t.map f) = walk extensions t
  | .file a => by rw [Tree.map, walk, walk]
  | .folder es => by rw [Tree.map, walk, walk, walkEntries_map f es]

theorem walkEntries_map {β : Type} (f : α → β) : (es : List (Text × Tree α)) →
    walkEntries extensions (Tree.mapEntries f es) = walkEntries extensions es
  | [] => by rw [Tree.mapEntries, walkEntries, walkEntries]
  | (name, .file a) :: es => by
    rw [Tree.mapEntries, Tree.map, walkEntries, walkEntries, walkEntries_map f es]
  | (name, .folder inner) :: es => by
    rw [Tree.mapEntries, Tree.map, walkEntries, walkEntries, walkEntries_map f inner,
      walkEntries_map f es]

end

theorem sources_map {β : Type} (f : α → β) (t : Tree α) :
    sources extensions (t.map f) = sources extensions t :=
  congrArg (List.mergeSort · precedes) (walk_map f t)

/-! ## Listed files -/

/-- The names lead to a file of the tree with one of the extensions, and the folders on the way are
not skipped. -/
structure IsSource (extensions : List Text) (t : Tree α) (names : List Text) : Prop where
  file : ∃ a, t.at? names = some (.file a)
  extension : ∃ name e, names.getLast? = some name ∧ e ∈ extensions ∧ Path.HasExtension name e
  folders : ∀ name ∈ names.dropLast, ¬ IsSkipped name

/-- What an entry adds to the listing of its folder. -/
def entrySources (extensions : List Text) (e : Text × Tree α) : List (List Text) :=
  if e.2.isFolder then if isSkipped e.1 then [] else (walk extensions e.2).map (e.1 :: ·)
  else if isWanted extensions e.1 then [[e.1]] else []

theorem walk_folder : walk extensions (.folder es) = es.flatMap (entrySources extensions) := by
  rw [walk]
  induction es with
  | nil => rw [walkEntries, List.flatMap_nil]
  | cons e es ih =>
    obtain ⟨name, t⟩ := e
    cases t with
    | file a => rw [walkEntries, ih]; rfl
    | folder inner => rw [walkEntries, ih, List.flatMap_cons, entrySources, walk]; rfl

theorem mem_entrySources {e : Text × Tree α} :
    names ∈ entrySources extensions e ↔ ∃ below, names = e.1 :: below ∧
      (e.2.isFolder = true ∧ isSkipped e.1 = false ∧ below ∈ walk extensions e.2 ∨
        e.2.isFolder = false ∧ isWanted extensions e.1 = true ∧ below = []) := by
  unfold entrySources
  cases e.2.isFolder with
  | true =>
    cases isSkipped e.1 with
    | true => simp
    | false =>
      simp only [Bool.false_eq_true, if_true, if_false, List.mem_map, true_and, false_and, or_false,
        reduceCtorEq]
      exact exists_congr fun below => and_comm.trans (and_congr_left' eq_comm)
  | false =>
    cases isWanted extensions e.1 with
    | true => simp
    | false => simp

/-! ## Which files are listed -/

theorem isSource_file {a : α} : ¬ IsSource extensions (.file a) names := by
  rintro ⟨⟨b, hb⟩, ⟨name, e, hname, -⟩, -⟩
  cases names with
  | nil => cases hname
  | cons n ns => cases hb

/-- A source file of a folder is in an entry of the folder. -/
theorem isSource_cons {below : List Text} (ht : (Tree.folder es).Proper) :
    IsSource extensions (.folder es) (name :: below) ↔ ∃ u, (name, u) ∈ es ∧
      (u.isFolder = true ∧ ¬ IsSkipped name ∧ IsSource extensions u below ∨
        u.isFolder = false ∧ (∃ e ∈ extensions, Path.HasExtension name e) ∧ below = []) := by
  constructor
  · rintro ⟨⟨a, hfile⟩, ⟨last, e, hlast, he, hext⟩, hfolders⟩
    obtain ⟨u, hu, hbelow⟩ := Option.bind_eq_some_iff.mp hfile
    refine ⟨u, ht.child?_eq_some_iff.mp hu, ?_⟩
    cases below with
    | nil =>
      obtain rfl := Option.some.inj hbelow
      obtain rfl := Option.some.inj hlast
      exact .inr ⟨rfl, ⟨e, he, hext⟩, rfl⟩
    | cons n ns =>
      rw [List.dropLast_cons_cons, List.forall_mem_cons] at hfolders
      cases u with
      | file b => cases hbelow
      | folder fs =>
        exact .inl ⟨rfl, hfolders.1, ⟨a, hbelow⟩, ⟨last, e, hlast, he, hext⟩, hfolders.2⟩
  · rintro ⟨u, hmem, ⟨hfolder, hskip, ⟨a, hfile⟩, ⟨last, e, hlast, he, hext⟩, hfolders⟩ |
      ⟨hnofolder, ⟨e, he, hext⟩, rfl⟩⟩
    · have hu := ht.child?_eq_some_iff.mpr hmem
      cases below with
      | nil => cases hlast
      | cons n ns =>
        refine ⟨⟨a, Option.bind_eq_some_iff.mpr ⟨u, hu, hfile⟩⟩, ⟨last, e, hlast, he, hext⟩, ?_⟩
        rw [List.dropLast_cons_cons, List.forall_mem_cons]
        exact ⟨hskip, hfolders⟩
    · have hu := ht.child?_eq_some_iff.mpr hmem
      cases u with
      | folder fs => cases hnofolder
      | file a =>
        exact ⟨⟨a, Option.bind_eq_some_iff.mpr ⟨_, hu, rfl⟩⟩, ⟨name, e, rfl, he, hext⟩, nofun⟩

/-- What an entry adds are its source files, if what is below it adds its own. -/
theorem cons_mem_entrySources {key : Text} {below : List Text} (hname : name ≠ Path.upward)
    (hbelow : below ∈ walk extensions u ↔ IsSource extensions u below) :
    key :: below ∈ entrySources extensions (name, u) ↔ key = name ∧
      (u.isFolder = true ∧ ¬ IsSkipped name ∧ IsSource extensions u below ∨
        u.isFolder = false ∧ (∃ e ∈ extensions, Path.HasExtension name e) ∧ below = []) := by
  rw [mem_entrySources, ← isSkipped_iff, ← isWanted_iff hname, ← hbelow, Bool.not_eq_true]
  constructor
  · rintro ⟨_, heq, h⟩
    obtain ⟨rfl, rfl⟩ := List.cons.inj heq
    exact ⟨rfl, h⟩
  · rintro ⟨rfl, h⟩
    exact ⟨below, rfl, h⟩

theorem mem_walk (ht : t.Proper) : names ∈ walk extensions t ↔ IsSource extensions t names := by
  induction ht generalizing names with
  | file a =>
    rw [walk]
    exact ⟨nofun, fun h => absurd h isSource_file⟩
  | @folder es hnodup hnames hproper ih =>
    rw [walk_folder, List.mem_flatMap]
    cases names with
    | nil =>
      constructor
      · rintro ⟨e, -, he⟩
        obtain ⟨below, hbelow, -⟩ := mem_entrySources.mp he
        cases hbelow
      · rintro ⟨-, ⟨name, e, hname, -⟩, -⟩
        cases hname
    | cons name below =>
      rw [isSource_cons (.folder hnodup hnames hproper)]
      constructor
      · rintro ⟨⟨key, u⟩, hmem, he⟩
        obtain ⟨rfl, h⟩ :=
          (cons_mem_entrySources (hnames _ hmem).not_upward (ih _ hmem)).mp he
        exact ⟨u, hmem, h⟩
      · rintro ⟨u, hmem, h⟩
        exact ⟨(name, u), hmem,
          (cons_mem_entrySources (hnames _ hmem).not_upward (ih _ hmem)).mpr ⟨rfl, h⟩⟩

/-- **The files that are listed.** -/
theorem mem_sources (ht : t.Proper) :
    names ∈ sources extensions t ↔ IsSource extensions t names := by
  rw [sources, List.mem_mergeSort, mem_walk ht]

/-! ## Order -/

theorem precedes_iff {p q : List Text} : precedes p q = true ↔ ¬ q < p := by
  induction p generalizing q with
  | nil => exact ⟨fun _ => List.not_lt_nil q, fun _ => rfl⟩
  | cons a p ih =>
    cases q with
    | nil => simp [precedes]
    | cons b q =>
      rw [precedes, Bool.or_eq_true, decide_eq_true_eq, Bool.and_eq_true, beq_iff_eq, ih,
        List.not_lt, List.not_lt, List.cons_le_cons_iff]

theorem sources_sorted (extensions : List Text) (t : Tree α) :
    (sources extensions t).Pairwise (fun p q => ¬ q < p) := by
  have htrans : ∀ p q r : List Text, precedes p q = true → precedes q r = true →
      precedes p r = true := by
    intro p q r hpq hqr
    rw [precedes_iff, List.not_lt] at hpq hqr ⊢
    exact List.le_trans hpq hqr
  have htotal : ∀ p q : List Text, (precedes p q || precedes q p) = true := by
    intro p q
    rw [Bool.or_eq_true, precedes_iff, precedes_iff, List.not_lt, List.not_lt]
    exact List.le_total p q
  exact (List.pairwise_mergeSort htrans htotal _).imp precedes_iff.mp

theorem nodup_walk (ht : t.Proper) : (walk extensions t).Nodup := by
  induction ht with
  | file a =>
    rw [walk]
    exact List.nodup_nil
  | @folder es hnodup hnames hproper ih =>
    rw [walk_folder, List.nodup_flatMap]
    constructor
    · intro e he
      unfold entrySources
      split
      · split
        · exact List.nodup_nil
        · exact (ih e he).map fun _ _ h => (List.cons.inj h).2
      · split
        · exact List.nodup_singleton _
        · exact List.nodup_nil
    · refine (List.pairwise_map.mp hnodup).imp fun {e f} hne names he hf => ?_
      obtain ⟨_, rfl, -⟩ := mem_entrySources.mp he
      obtain ⟨_, heq, -⟩ := mem_entrySources.mp hf
      exact hne (List.cons.inj heq).1

theorem nodup_sources (ht : t.Proper) : (sources extensions t).Nodup :=
  (List.mergeSort_perm _ _).nodup_iff.mpr (nodup_walk ht)

/-- **Each file is listed once**, in the order of the names on the way to it. -/
theorem sources_pairwise (ht : t.Proper) : (sources extensions t).Pairwise (· < ·) := by
  refine ((sources_sorted extensions t).and (nodup_sources ht)).imp fun ⟨hle, hne⟩ => ?_
  exact (List.le_iff_lt_or_eq.mp (List.not_lt.mp hle)).resolve_right hne

/-- A sorted list of what is found in the order of the entries is what is listed. -/
theorem sources_eq_of_perm {files : List (List Text)}
    (hsorted : files.Pairwise (fun p q => ¬ q < p)) (hperm : files.Perm (walk extensions t)) :
    sources extensions t = files :=
  ((List.mergeSort_perm _ _).trans hperm.symm).eq_of_pairwise
    (fun _ _ _ _ hle hge => List.le_antisymm (List.not_lt.mp hle) (List.not_lt.mp hge))
    (sources_sorted extensions t) hsorted

/-! ## Reordered trees -/

theorem walk_perm (h : t.Reordered u) : (walk extensions t).Perm (walk extensions u) := by
  induction h with
  | refl t => exact .refl _
  | entries hperm =>
    rw [walk_folder, walk_folder]
    exact hperm.flatMap_right _
  | @inside before after name t u h ih =>
    have hentry : (entrySources extensions (name, t)).Perm (entrySources extensions (name, u)) := by
      unfold entrySources
      rw [h.isFolder_eq]
      split
      · split
        · exact .refl _
        · exact ih.map _
      · exact .refl _
    rw [walk_folder, walk_folder, List.flatMap_append, List.flatMap_append, List.flatMap_cons,
      List.flatMap_cons]
    exact (hentry.append_right _).append_left _
  | trans _ _ ih ih' => exact ih.trans ih'

/-- **The order of the entries does not matter** for what is listed. -/
theorem sources_of_reordered (h : t.Reordered u) :
    sources extensions u = sources extensions t :=
  sources_eq_of_perm (sources_sorted extensions t)
    ((List.mergeSort_perm _ _).trans (walk_perm h))

end Scan

end ApiAnnotations

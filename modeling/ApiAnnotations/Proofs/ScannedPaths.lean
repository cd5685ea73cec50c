import ApiAnnotations.Proofs.ListingOrder

/-! # The paths that a scan returns

* `Path.bytes` : the components of a path as they are compared.
* `Path.parts_pathBelow` : the components of a file's path are those of the directory and the names
  below it.
* `scan_exact` : the paths that a scan returns, and that neither they nor the document depend on the
  order in which directories are listed. -/

namespace ApiAnnotations

namespace Path

/-- The components of a path, without those that lead nowhere else. -/
def parts (path : Text) : List Text := (components path).filter fun c => !isIdle c

/-- The components of a path as they are compared, byte by byte. -/
def bytes (path : Text) : List (List UInt8) := (parts path).map Text.encode

variable {path name root : Text} {names : List Text}

theorem parts_join (hpath : path ≠ []) (h : IsEntryName name) :
    parts (join path name) = parts path ++ [name] := by
  have hsplit : ∀ above : Text, parts (above ++ '/' :: name) = parts above ++ [name] := by
    intro above
    simp [parts, components, Text.splitOn_append_cons, Text.splitOn_of_not_mem h.no_slash,
      h.not_idle]
  have hrelative : (name.head? == some '/') = false := by
    rw [beq_eq_false_iff_ne]
    exact fun hhead => h.no_slash (List.mem_of_mem_head? hhead)
  have hempty : path.isEmpty = false := List.isEmpty_eq_false_iff.mpr hpath
  rw [join, hempty, hrelative]
  cases hlast : path.getLast? == some '/' with
  | false => simpa using hsplit path
  | true =>
    obtain ⟨above, rfl⟩ := List.getLast?_eq_some_iff.mp (beq_iff_eq.mp hlast)
    have habove : parts (above ++ ['/']) = parts above := by
      simp [parts, components, Text.splitOn_append_cons, Text.splitOn_of_not_mem, isIdle]
    simpa [habove] using hsplit above

theorem join_ne_nil (hpath : path ≠ []) (h : IsEntryName name) : join path name ≠ [] := by
  intro hnil
  have hparts := parts_join hpath h
  rw [hnil] at hparts
  exact List.append_ne_nil_of_right_ne_nil _ (List.cons_ne_nil name []) hparts.symm

/-- The names below a directory come behind the components of its path. -/
theorem parts_pathBelow (hroot : root ≠ []) (h : ∀ name ∈ names, IsEntryName name) :
    parts (Scan.pathBelow root names) = parts root ++ names := by
  induction names generalizing root with
  | nil => exact (List.append_nil _).symm
  | cons name names ih =>
    obtain ⟨hname, hnames⟩ := List.forall_mem_cons.mp h
    have hbelow := ih (join_ne_nil hroot hname) hnames
    rw [parts_join hroot hname, List.append_assoc, List.singleton_append] at hbelow
    exact hbelow

end Path

theorem Workspace.ne_nil_of_find? {w : Workspace} {path : Text} {t : Tree (List UInt8)}
    (h : w.find? path = some t) : path ≠ [] := by
  rintro rfl
  cases h

/-- **What a scan returns.**  In a directory, a scan returns the paths of the files below it that
have one of the extensions and that no skipped folder leads to, each once and in the order of the
bytes of the components. The paths, and the document built from them, are the same for every order
in which the entries of the folders are listed. -/
theorem scan_exact {w : Workspace} {root : Text} {es : List (Text × Tree (List UInt8))}
    (hproper : w.tree.Proper) (hroot : w.find? root = some (.folder es))
    (extensions : List Text) :
    ∃ files : List (List Text),
      (∀ names, names ∈ files ↔ Scan.IsSource extensions (.folder es) names) ∧ files.Nodup ∧
      (files.map (Scan.pathBelow root)).Pairwise (fun p q => Path.bytes p < Path.bytes q) ∧
      ∀ t, w.tree.Reordered t →
        (Workspace.perform (Build.scan root extensions) { w with tree := t }).1 =
          .ok (files.map (Scan.pathBelow root)) ∧
        ∀ config, (Workspace.perform (Build.document root config) { w with tree := t }).1 =
          (w.perform (Build.document root config)).1 := by
  have hfolder : (Tree.folder es).Proper := hproper.find? hroot
  have hsorted : (Scan.sources extensions (.folder es)).Pairwise (· < ·) :=
    Scan.sources_pairwise hfolder
  refine ⟨Scan.sources extensions (.folder es), fun names => Scan.mem_sources hfolder,
    Scan.nodup_sources hfolder, ?_, fun t ht => ?_⟩
  · have hparts : ∀ names ∈ Scan.sources extensions (.folder es),
        Path.parts (Scan.pathBelow root names) = Path.parts root ++ names := by
      intro names hnames
      obtain ⟨⟨a, hfile⟩, -, -⟩ := (Scan.mem_sources hfolder).mp hnames
      exact Path.parts_pathBelow (Workspace.ne_nil_of_find? hroot) (hfolder.at? hfile).2
    refine List.pairwise_map.mpr (hsorted.imp_of_mem fun {p q} hp hq hlt => ?_)
    rw [Path.bytes, Path.bytes, hparts p hp, hparts q hq]
    exact Text.map_encode_lt (List.append_left_lt hlt)
  · have hsame : Workspace.SameFiles w { w with tree := t } := ⟨hproper, ht, rfl, rfl, rfl⟩
    constructor
    · rw [(Build.orderFree_scan root extensions w _ hsame).1, Build.perform_scan, hroot]
      rfl
    · exact fun config => (Build.orderFree_document root config w _ hsame).1

/-- A directory with a hidden name, in which there are folders that are skipped and one that is
not. -/
def padsEntries : List (Text × Tree (List UInt8)) :=
  [("a.go", .file []), ("a-b", .folder [("x.go", .file [])]), (".go", .file []),
    ("vendor", .folder [("y.go", .file [])]),
    ("a", .folder [("x.md", .file []), ("x.go", .file [])]), ("vendor.go", .folder [(".z.go", .file [])])]

def pads : Workspace := ⟨.folder [(".pads", .folder padsEntries)], [], [], []⟩

/-- Whether they are listed forwards or backwards, the entries are scanned in the same order. -/
theorem scan_exact_pads :
    pads.tree.Proper ∧ pads.find? ".pads/" = some (.folder padsEntries) ∧
    (Workspace.perform (Build.scan ".pads/" ["go"])
      { pads with tree := .folder [(".pads", .folder padsEntries.reverse)] }).1 =
      .ok [".pads/a/x.go", ".pads/a-b/x.go", ".pads/a.go", ".pads/vendor.go/.z.go"] := by
  have hproper : pads.tree.Proper := by
    simp [pads, padsEntries, Tree.proper_folder_iff, Tree.Proper.file]
    decide
  have hroot : pads.find? ".pads/" = some (.folder padsEntries) := rfl
  refine ⟨hproper, hroot, ?_⟩
  obtain ⟨files, -, -, -, hresult⟩ := scan_exact hproper hroot ["go"]
  have hreordered : pads.tree.Reordered (.folder [(".pads", .folder padsEntries.reverse)]) :=
    @Tree.Reordered.folder _ _ [(".pads", .folder padsEntries.reverse)] _
      (.cons ⟨rfl, .entries (List.reverse_perm _).symm⟩ .nil) (.refl _)
  have hsources : Scan.sources ["go"] (.folder padsEntries) =
      ([["a", "x.go"], ["a-b", "x.go"], ["a.go"], ["vendor.go", ".z.go"]] : List (List Text)) :=
    Scan.sources_eq_of_perm (by decide +kernel) (by
      simp only [Scan.walk, padsEntries, Scan.walkEntries]
      decide +kernel)
  rw [(hresult _ hreordered).1, ← (hresult _ (.refl _)).1, Build.perform_scan]
  show Except.ok ((Scan.sources ["go"] (.folder padsEntries)).map (Scan.pathBelow ".pads/")) = _
  rw [hsources]
  decide +kernel

end ApiAnnotations

import ApiAnnotations.Build
import ApiAnnotations.Proofs.SourceListing
import ApiAnnotations.Workspace

/-! # The order in which directories are listed

A document is built from a tree whose folders may have been listed in any order.

* `Workspace.SameFiles` : workspaces whose trees differ in the order of entries only.
* `OrderFree` : a run that has the same result and the same events in such workspaces. It is closed
  under the ways in which runs are put together, `OrderFree.bind` above all.
* `Build.orderFree_document` : building a document is such a run.
* `Build.perform_scan` : what a scan does. -/

namespace ApiAnnotations

/-! ## Runs in a workspace -/

namespace Workspace

variable {α β : Type}

/-- A run goes on where its first part ends, unless that fails. -/
theorem perform_bind (run : Run (StateM Workspace) α) (next : α → Run (StateM Workspace) β)
    (w : Workspace) :
    w.perform (run >>= next) =
      match w.perform run with
      | (.ok a, w) => w.perform (next a)
      | (.error f, w) => (.error f, w) := by
  show ExceptT.bindCont next (run w).1 (run w).2 = match run w with
    | (.ok a, w) => _
    | (.error f, w) => _
  rcases run w with ⟨result, w⟩
  cases result <;> rfl

/-- What is read from the host is required to be there. -/
theorem perform_require (view : Workspace → Option α) (failure : Failure) (w : Workspace) :
    w.perform (Run.require failure (do return view (← get))) =
      match view w with
      | some a => (.ok a, w)
      | none => (.error failure, w) := by
  have hread : w.perform (ExceptT.lift (do return view (← get))) = (.ok (view w), w) := rfl
  rw [Run.require, perform_bind, hread]
  cases view w <;> rfl

/-- A run that reads a file goes on with what is in it. -/
theorem perform_readFile (e : Event) (failure : Failure) {path : Text} {w : Workspace}
    {bytes : List UInt8} (h : w.tree.read? w.place path = some bytes)
    (next : List UInt8 → Run (StateM Workspace) α) :
    w.perform (do
      Run.report e
      let bytes ← Run.require failure (Host.readFile path)
      next bytes) = ({ w with log := e :: w.log } : Workspace).perform (next bytes) := by
  let v : Workspace := { w with log := e :: w.log }
  have hreport : w.perform (Run.report e) = (.ok (), v) := rfl
  have hread : v.perform (Run.require failure (Host.readFile path)) = (.ok bytes, v) := by
    refine (v.perform_require (fun w => (w.find? path).bind Tree.contents?) failure).trans ?_
    have hbytes : (v.find? path).bind Tree.contents? = some bytes := h
    rw [hbytes]
  rw [perform_bind, hreport]
  change v.perform (Run.require failure (Host.readFile path) >>= next) = v.perform (next bytes)
  rw [perform_bind, hread]

theorem perform_reportAll (es : List Event) (w : Workspace) :
    w.perform (Run.reportAll es) = (.ok (), { w with log := es.reverse ++ w.log }) := by
  induction es generalizing w with
  | nil => rfl
  | cons e es ih =>
    rw [Run.reportAll, perform_bind]
    change ({ w with log := e :: w.log } : Workspace).perform (Run.reportAll es) = _
    rw [ih, List.reverse_cons, List.append_assoc]
    rfl

/-- Workspaces whose trees differ in the order of entries only; the names of these are proper. -/
structure SameFiles (w w' : Workspace) : Prop where
  proper : w.tree.Proper
  tree : w.tree.Reordered w'.tree
  place : w'.place = w.place
  log : w'.log = w.log
  shown : w'.shown = w.shown

theorem SameFiles.find? {w w' : Workspace} (h : SameFiles w w') (path : Text) :
    Tree.Reordered? (w.find? path) (w'.find? path) := by
  rw [Workspace.find?, Workspace.find?, h.place]
  exact h.tree.find? h.proper w.place path

end Workspace

/-- A run does the same in workspaces with the same files. -/
def OrderFree {α : Type} (run : Run (StateM Workspace) α) : Prop :=
  ∀ w w', Workspace.SameFiles w w' → (w'.perform run).1 = (w.perform run).1 ∧
    Workspace.SameFiles (w.perform run).2 (w'.perform run).2

namespace OrderFree

variable {α β : Type}

theorem pure (a : α) : OrderFree (pure a) := fun _ _ h => ⟨rfl, h⟩

theorem throw (f : Failure) : OrderFree (throw f : Run (StateM Workspace) α) :=
  fun _ _ h => ⟨rfl, h⟩

theorem bind {run : Run (StateM Workspace) α} {next : α → Run (StateM Workspace) β}
    (hrun : OrderFree run) (hnext : ∀ a, OrderFree (next a)) : OrderFree (run >>= next) := by
  intro w w' h
  have hparts := hrun w w' h
  rw [Workspace.perform_bind, Workspace.perform_bind]
  generalize w.perform run = p at hparts
  generalize w'.perform run = p' at hparts
  obtain ⟨result, v⟩ := p
  obtain ⟨result', v'⟩ := p'
  obtain ⟨rfl, hsame⟩ : result' = result ∧ v.SameFiles v' := hparts
  cases result' with
  | ok a => exact hnext a v v' hsame
  | error f => exact ⟨rfl, hsame⟩

/-- What is only read from the host is the same if it does not depend on the order of entries. -/
theorem read (view : Workspace → α)
    (h : ∀ w w', Workspace.SameFiles w w' → view w' = view w) :
    OrderFree (ExceptT.lift (do return view (← get))) :=
  fun w w' hsame => ⟨congrArg Except.ok (h w w' hsame), hsame⟩

theorem require {view : Workspace → Option α} (failure : Failure)
    (h : ∀ w w', Workspace.SameFiles w w' → view w' = view w) :
    OrderFree (Run.require failure (do return view (← get))) := by
  intro w w' hsame
  rw [Workspace.perform_require, Workspace.perform_require, h w w' hsame]
  cases view w with
  | none => exact ⟨rfl, hsame⟩
  | some a => exact ⟨rfl, hsame⟩

theorem report (e : Event) : OrderFree (Run.report e) := fun _ _ h =>
  ⟨rfl, h.proper, h.tree, h.place, congrArg (e :: ·) h.log, h.shown⟩

theorem reportAll (es : List Event) : OrderFree (Run.reportAll es) := by
  induction es with
  | nil => exact pure ()
  | cons e es ih => exact (report e).bind fun _ => ih

end OrderFree

/-! ## Building a document -/

namespace Build

open OrderFree (report reportAll)

theorem orderFree_readFile (failure : Failure) (path : Text) :
    OrderFree (Run.require failure (Host.readFile path)) :=
  .require failure fun _ _ h => (h.find? path).bind_eq fun _ _ hreordered => hreordered.contents?_eq

theorem orderFree_pathExists (path : Text) :
    OrderFree (ExceptT.lift (Host.pathExists path)) :=
  .read _ fun _ _ h => (h.find? path).isSome_eq

theorem orderFree_readSource (path : Text) : OrderFree (readSource path) :=
  (report _).bind fun _ => (orderFree_readFile _ path).bind fun _ =>
    (reportAll _).bind fun _ => .pure _

theorem orderFree_readSources (paths : List Text) : OrderFree (readSources paths) := by
  refine (report _).bind fun _ => ?_
  induction paths with
  | nil => exact .pure []
  | cons path paths ih => exact (orderFree_readSource path).bind fun _ => ih.bind fun _ => .pure _

theorem orderFree_loadMetadataFile (path : Text) : OrderFree (loadMetadataFile path) := by
  refine (report _).bind fun _ => (orderFree_readFile _ path).bind fun bytes => ?_
  split
  · exact .throw _
  · split
    · exact .throw _
    · exact .pure _

theorem orderFree_loadMetadata (root : Text) : OrderFree (loadMetadata root) := by
  refine (orderFree_pathExists _).bind fun found => ?_
  split
  · exact orderFree_loadMetadataFile _
  · exact (report _).bind fun _ => .pure _

/-- A scan returns the sources of the folder that the path leads to. -/
theorem perform_scan (root : Text) (extensions : List Text) (w : Workspace) :
    w.perform (scan root extensions) =
      match (w.find? root).filter Tree.isFolder with
      | some t =>
        let paths := (Scan.sources extensions t).map (Scan.pathBelow root)
        (.ok paths, { w with log := .scanned root paths.length :: w.log })
      | none => (.error (.unreadableDirectory root), w) := by
  have hread : w.perform (Run.require (.unreadableDirectory root) (Host.readDirectory root)) = _ :=
    w.perform_require (fun w => ((w.find? root).filter Tree.isFolder).map (Tree.map fun _ => ())) _
  rw [scan, Workspace.perform_bind, hread]
  cases (w.find? root).filter Tree.isFolder with
  | none => rfl
  | some t =>
    have hsources : Scan.sources extensions (t.map fun _ => ()) = Scan.sources extensions t :=
      Scan.sources_map _ t
    simp only [Option.map_some, hsources]
    rfl

theorem orderFree_scan (root : Text) (extensions : List Text) :
    OrderFree (scan root extensions) := by
  intro w w' h
  have hfind := h.find? root
  rw [perform_scan, perform_scan]
  generalize w.find? root = t? at hfind
  generalize w'.find? root = u? at hfind
  cases hfind with
  | none => exact ⟨rfl, h⟩
  | @some t u hreordered =>
    rw [Option.filter_some, Option.filter_some, hreordered.isFolder_eq]
    cases t.isFolder with
    | false => exact ⟨rfl, h⟩
    | true =>
      have hsources : Scan.sources extensions u = Scan.sources extensions t :=
        Scan.sources_of_reordered hreordered
      simp only [if_true, hsources, true_and]
      exact ⟨h.proper, h.tree, h.place, congrArg (_ :: ·) h.log, h.shown⟩

theorem orderFree_documentWith (root : Text) (config : Config) (metadata : Metadata) :
    OrderFree (documentWith root config metadata) :=
  (report _).bind fun _ => (orderFree_scan root _).bind fun _ => (report _).bind fun _ =>
    (orderFree_readSources _).bind fun _ => (reportAll _).bind fun _ => (report _).bind fun _ =>
      (reportAll _).bind fun _ => .pure _

theorem orderFree_document (root : Text) (config : Config) : OrderFree (document root config) :=
  (orderFree_loadMetadata root).bind fun metadata => orderFree_documentWith root config metadata

end Build

end ApiAnnotations

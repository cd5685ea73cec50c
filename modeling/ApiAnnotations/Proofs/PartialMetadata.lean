import ApiAnnotations.Proofs.ListingOrder
import ApiAnnotations.Proofs.Metadata
import ApiAnnotations.Proofs.Text.Utf8

/-! # Partial metadata

Metadata are read from an object in which any keys may be missing, and so may keys of its info.

* `Metadata.partialJson` : metadata written with all keys but the deleted ones.
* `Metadata.filled` : metadata in which the deleted fields have the values assumed for them.
* `Metadata.ofJson_partialJson_eq_iff` : this is what reading gives.
* `partial_metadata` : the assumed values are those of the default metadata, the title apart: an
  info without a title has an empty one. -/

namespace ApiAnnotations

open Json (Codec Readable bind_eq_ok_iff ok_bind readsBack_any_iff readsBack_list
  readsBack_map_iff readsBack_optional readsBack_text without)
open Json.Shape (read_object)

/-! ## Infos -/

namespace Info

/-- The members for all fields of an info; there is a null where there is nothing. -/
def members (x : Info) : List (Text × Json) := [
  ("title", Codec.text.write x.title),
  ("description", Codec.text.write x.description),
  ("version", Codec.text.write x.version),
  ("termsOfService", Codec.text.write x.termsOfService),
  ("contact", Contact.shape.codec.optional.write x.contact),
  ("license", License.shape.codec.optional.write x.license)]

/-- An info with the deleted fields of another one. -/
def filled (x : Info) (deleted : Text → Bool) (base : Info) : Info where
  title := if deleted "title" then base.title else x.title
  description := if deleted "description" then base.description else x.description
  version := if deleted "version" then base.version else x.version
  termsOfService := if deleted "termsOfService" then base.termsOfService else x.termsOfService
  contact := if deleted "contact" then base.contact else x.contact
  license := if deleted "license" then base.license else x.license

theorem read_without (depth : Nat) (deleted : Text → Bool) (x : Info) :
    shape.read (depth + 2) (Json.Draft.ofTree (.object (without deleted x.members))) =
      .ok (x.filled deleted .blank) :=
  read_object (by decide) <|
    .without_cons (readsBack_text ..) rfl <|
    .without_cons (readsBack_text ..) rfl <|
    .without_cons (readsBack_text ..) rfl <|
    .without_cons (readsBack_text ..) rfl <|
    .without_cons (readsBack_optional nofun fun a _ => Contact.readsBack depth a) rfl <|
    .without_cons (readsBack_optional nofun fun a _ => License.readsBack depth a) rfl .nil

/-- An info without a title has an empty one, not the default one. -/
theorem filled_blank_eq_iff {deleted : Text → Bool} {x : Info} :
    x.filled deleted .blank = x.filled deleted .default ↔ deleted "title" = false := by
  have hdefault : x.filled deleted .default = { x.filled deleted .blank with
      title := if deleted "title" then default.title else x.title } := rfl
  constructor
  · intro h
    rw [Bool.eq_false_iff]
    intro hdeleted
    have htitle := congrArg title h
    simp only [filled, if_pos hdeleted] at htitle
    exact absurd htitle (by decide)
  · intro hdeleted
    rw [hdefault, filled, hdeleted]
    rfl

end Info

/-! ## Metadata -/

namespace Metadata

/-- The members for all fields of metadata, with the value that is written for the info. -/
def members (m : Metadata) (info : Json) : List (Text × Json) := [
  ("swagger", Codec.text.write m.swagger),
  ("info", info),
  ("host", Codec.text.write m.host),
  ("basePath", Codec.text.write m.basePath),
  ("tags", (Codec.list TagInfo.shape.codec).write m.tags),
  ("schemes", (Codec.list .text).write m.schemes),
  ("securityDefinitions", (Codec.map .any).write m.securityDefinitions)]

/-- Metadata written with all keys but the deleted ones. -/
def partialJson (m : Metadata) (deleted deletedInInfo : Text → Bool) : Json :=
  .object (without deleted (m.members (.object (without deletedInInfo m.info.members))))

/-- Metadata with the deleted fields of the default ones, and of another info where the info itself
is kept. -/
def filled (m : Metadata) (deleted deletedInInfo : Text → Bool) (base : Info) : Metadata where
  swagger := if deleted "swagger" then default.swagger else m.swagger
  info := if deleted "info" then default.info else m.info.filled deletedInInfo base
  host := if deleted "host" then default.host else m.host
  basePath := if deleted "basePath" then default.basePath else m.basePath
  tags := if deleted "tags" then default.tags else m.tags
  schemes := if deleted "schemes" then default.schemes else m.schemes
  securityDefinitions :=
    if deleted "securityDefinitions" then default.securityDefinitions else m.securityDefinitions

variable (m : Metadata) (deleted deletedInInfo : Text → Bool)

/-- What reading comes to depends on the security definitions only. -/
theorem read_partialJson (depth : Nat) :
    shape.read (depth + 4) (Json.Draft.ofTree (m.partialJson deleted deletedInInfo)) =
      ((if deleted "securityDefinitions" then .ok default.securityDefinitions
        else (Codec.map .any).read (depth + 3)
          (Json.Draft.ofTree ((Codec.map .any).write m.securityDefinitions))) >>= fun s =>
        .ok { m.filled deleted deletedInInfo .blank with securityDefinitions := s }) :=
  read_object (by decide) <|
    .without_cons (readsBack_text ..) rfl <|
    .without_cons (Info.read_without (depth + 1) deletedInInfo m.info) rfl <|
    .without_cons (readsBack_text ..) rfl <|
    .without_cons (readsBack_text ..) rfl <|
    .without_cons (readsBack_list fun t _ => TagInfo.readsBack depth t) rfl <|
    .without_cons (readsBack_list fun _ _ => readsBack_text ..) rfl <|
    .without_last rfl

theorem ofJson_partialJson :
    ofJson (m.partialJson deleted deletedInInfo).pretty =
      ((if deleted "securityDefinitions" then .ok default.securityDefinitions
        else (Codec.map .any).read (Json.maxDepth - 1)
          (Json.Draft.ofTree ((Codec.map .any).write m.securityDefinitions))) >>= fun s =>
        .ok { m.filled deleted deletedInInfo .blank with securityDefinitions := s }) := by
  rw [ofJson, Json.Reader.run_pretty]
  exact m.read_partialJson deleted deletedInInfo (Json.maxDepth - 4)

/-- The security definitions are deleted, or can be read inside the metadata and their map. -/
def Rereadable : Prop :=
  deleted "securityDefinitions" = true ∨
    ∀ v ∈ m.securityDefinitions.values, Readable (Json.maxDepth - 2) v

/-- **Partial metadata are read** with the assumed values of the deleted fields. -/
theorem ofJson_partialJson_eq_iff :
    ofJson (m.partialJson deleted deletedInInfo).pretty =
      .ok (m.filled deleted deletedInInfo .blank) ↔ m.Rereadable deleted := by
  rw [ofJson_partialJson, Rereadable]
  cases hdeleted : deleted "securityDefinitions" with
  | true =>
    have hsecurity : default.securityDefinitions =
        (m.filled deleted deletedInInfo .blank).securityDefinitions := (if_pos hdeleted).symm
    refine iff_of_true ?_ (.inl rfl)
    rw [if_pos rfl, ok_bind, hsecurity]
  | false =>
    have hsecurity : (m.filled deleted deletedInInfo .blank).securityDefinitions =
        m.securityDefinitions := if_neg (Bool.eq_false_iff.mp hdeleted)
    have hreadable : (∀ v ∈ m.securityDefinitions.values, Readable (Json.maxDepth - 2) v) ↔
        (Codec.map .any).ReadsBack (Json.maxDepth - 1) m.securityDefinitions :=
      (forall₂_congr fun v _ => readsBack_any_iff.symm).trans readsBack_map_iff.symm
    rw [if_neg Bool.false_ne_true, hreadable, or_iff_right Bool.false_ne_true]
    constructor
    · intro h
      obtain ⟨s, hread, h⟩ := bind_eq_ok_iff.mp h
      have hsame : s = m.securityDefinitions :=
        (congrArg securityDefinitions (Except.ok.inj h)).trans hsecurity
      exact hsame ▸ hread
    · intro h
      rw [h, ok_bind, ← hsecurity]

/-- The assumed values are the default ones, unless the title of an info is missing. -/
theorem filled_blank_eq_iff :
    m.filled deleted deletedInInfo .blank = m.filled deleted deletedInInfo .default ↔
      deleted "info" = true ∨ deletedInInfo "title" = false := by
  have hinfo : m.filled deleted deletedInInfo .default =
      { m.filled deleted deletedInInfo .blank with
        info := if deleted "info" then default.info else m.info.filled deletedInInfo .default } :=
    rfl
  cases hdeleted : deleted "info" with
  | true =>
    refine iff_of_true ?_ (.inl rfl)
    rw [hinfo, filled, hdeleted]
    rfl
  | false =>
    rw [or_iff_right Bool.false_ne_true, ← Info.filled_blank_eq_iff (x := m.info)]
    constructor
    · intro h
      have hparts := congrArg info h
      simp only [filled, if_neg (Bool.eq_false_iff.mp hdeleted)] at hparts
      exact hparts
    · intro h
      rw [hinfo, ← h, filled, hdeleted]

/-- Reading gives the default values of the deleted fields exactly where it gives the assumed ones
and these are the same. -/
theorem ofJson_partialJson_eq_default_iff :
    ofJson (m.partialJson deleted deletedInInfo).pretty =
        .ok (m.filled deleted deletedInInfo .default) ↔
      (deleted "info" = true ∨ deletedInInfo "title" = false) ∧ m.Rereadable deleted := by
  constructor
  · intro h
    have hread := h
    rw [ofJson_partialJson] at hread
    obtain ⟨s, -, heq⟩ := bind_eq_ok_iff.mp hread
    obtain rfl : s = (m.filled deleted deletedInInfo .blank).securityDefinitions :=
      congrArg securityDefinitions (Except.ok.inj heq)
    have hsame : m.filled deleted deletedInInfo .blank = m.filled deleted deletedInInfo .default :=
      Except.ok.inj heq
    rw [← hsame] at h
    exact ⟨(m.filled_blank_eq_iff deleted deletedInInfo).mp hsame,
      (m.ofJson_partialJson_eq_iff deleted deletedInInfo).mp h⟩
  · rintro ⟨htitle, hsecurity⟩
    rw [← (m.filled_blank_eq_iff deleted deletedInInfo).mpr htitle]
    exact (m.ofJson_partialJson_eq_iff deleted deletedInInfo).mpr hsecurity

end Metadata

/-! ## Metadata of a directory -/

namespace Build

variable {w : Workspace} {root : Text}

/-- Metadata are loaded from their file if there is one. -/
theorem perform_loadMetadata (w : Workspace) (root : Text) :
    w.perform (loadMetadata root) =
      if (w.find? (metadataPath root)).isSome then
        w.perform (loadMetadataFile (metadataPath root))
      else (.ok .default, { w with log := .noMetadata root :: w.log }) := by
  have hexists : w.perform (ExceptT.lift (Host.pathExists (metadataPath root))) =
      (.ok (w.find? (metadataPath root)).isSome, w) := rfl
  rw [loadMetadata, Workspace.perform_bind, hexists]
  cases w.find? (metadataPath root) <;> rfl

theorem loadMetadata_of_none (h : w.find? (metadataPath root) = none) :
    (w.perform (loadMetadata root)).1 = .ok .default := by
  rw [perform_loadMetadata, h]
  rfl

theorem loadMetadata_of_file {s : Text} {m : Metadata}
    (hfile : w.tree.read? w.place (metadataPath root) = some (Text.encode s))
    (hread : Metadata.ofJson s = .ok m) : (w.perform (loadMetadata root)).1 = .ok m := by
  have hexists : (w.find? (metadataPath root)).isSome = true := by
    obtain ⟨t, hfind, -⟩ := Option.bind_eq_some_iff.mp hfile
    exact Option.isSome_of_eq_some hfind
  rw [perform_loadMetadata, if_pos hexists, loadMetadataFile, Workspace.perform_readFile _ _ hfile,
    Text.decode?_encode]
  simp only [hread]
  rfl

end Build

/-- **Partial metadata are the default ones overridden by what they say**, exactly if no title is
missing in an info; such a title is read as an empty one. An empty object is read as the metadata
that are used where there is no file. -/
theorem partial_metadata (m : Metadata) (deleted deletedInInfo : Text → Bool) :
    (Metadata.ofJson (m.partialJson deleted deletedInInfo).pretty =
        .ok (m.filled deleted deletedInInfo .default) ↔
      (deleted "info" = true ∨ deletedInInfo "title" = false) ∧ m.Rereadable deleted) ∧
    (Metadata.ofJson (m.partialJson deleted deletedInInfo).pretty =
        .ok (m.filled deleted deletedInInfo .blank) ↔ m.Rereadable deleted) ∧
    Metadata.ofJson ['{', '}'] = .ok .default ∧
    ∀ (w w' : Workspace) (root : Text), w.find? (Build.metadataPath root) = none →
      w'.tree.read? w'.place (Build.metadataPath root) = some (Text.encode ['{', '}']) →
      (w'.perform (Build.loadMetadata root)).1 = (w.perform (Build.loadMetadata root)).1 := by
  have hempty : Metadata.ofJson ['{', '}'] = .ok .default :=
    (Metadata.default.ofJson_partialJson_eq_iff (fun _ => true) fun _ => true).mpr (.inl rfl)
  refine ⟨m.ofJson_partialJson_eq_default_iff deleted deletedInInfo,
    m.ofJson_partialJson_eq_iff deleted deletedInInfo, hempty, fun w w' root hmissing hfile => ?_⟩
  rw [Build.loadMetadata_of_file hfile hempty, Build.loadMetadata_of_none hmissing]

/-- The scaffold with a key as security definition. -/
def keyedScaffold : Metadata :=
  { Metadata.scaffold with
    securityDefinitions := .ofList [("key", .object [("in", .string "header"), ("size", .null)])] }

/-- A workspace with one folder. -/
def oneFolder (entries : List (Text × Tree (List UInt8))) : Workspace :=
  ⟨.folder [("pads", .folder entries)], [], [], []⟩

theorem partial_metadata_keyedScaffold :
    Metadata.ofJson (keyedScaffold.partialJson (fun key => decide (key = "host".toList))
      fun key => decide (key = "license".toList)).pretty =
        .ok { keyedScaffold with
          host := [], info := { Metadata.scaffold.info with license := none } } ∧
    ((oneFolder [(Build.metadataName, .file [0x7B, 0x7D])]).perform (Build.loadMetadata "pads")).1 =
      ((oneFolder []).perform (Build.loadMetadata "pads")).1 := by
  obtain ⟨hread, -, -, hmissing⟩ := partial_metadata keyedScaffold
    (fun key => decide (key = "host".toList)) fun key => decide (key = "license".toList)
  have hkey : Readable (Json.maxDepth - 2)
      (.object [("in", .string "header"), ("size", .null)]) :=
    .object (List.pairwise_pair.mpr (by decide)) <|
      List.forall_mem_cons.mpr ⟨.string _, List.forall_mem_singleton.mpr .null⟩
  refine ⟨hread.mpr ⟨.inr (by decide), .inr fun v hv => ?_⟩, hmissing _ _ _ rfl rfl⟩
  obtain rfl := List.mem_singleton.mp hv
  exact hkey

/-- All keys but that of the info. -/
def otherThanInfo (key : Text) : Bool := !decide (key = "info".toList)

/-- Default metadata of which only an empty info is left are read without their title. -/
theorem Metadata.emptyInfo_untitled :
    (Metadata.default.partialJson otherThanInfo fun _ => true).pretty =
      "\x7b\n  \"info\": \x7b\x7d\n\x7d".toList ∧
    Metadata.ofJson "\x7b\n  \"info\": \x7b\x7d\n\x7d" =
      .ok { Metadata.default with info := .blank } ∧
    Metadata.default.filled otherThanInfo (fun _ => true) .default = .default ∧
    { Metadata.default with info := .blank } ≠ Metadata.default := by
  refine ⟨by decide, ?_, rfl, fun h => ?_⟩
  · exact (Metadata.default.ofJson_partialJson_eq_iff otherThanInfo fun _ => true).mpr (.inl rfl)
  · exact absurd (congrArg (fun m => m.info.title) h) (by decide)

end ApiAnnotations

import ApiAnnotations.Metadata
import ApiAnnotations.Proofs.Json.Any
import ApiAnnotations.Proofs.Json.Record

/-! # Reading metadata back

* `Info.readsBack`, `TagInfo.readsBack` : every info and every tag is read back.
* `Metadata.readsBack` : metadata are read back if their security definitions are.
* `Metadata.yields` : so are metadata that were read, if the numbers of their security definitions
  are integers. -/

namespace ApiAnnotations

open Json (Codec Field Integral Shape readsBack_text readsBack_list readsBack_map)

theorem Contact.readsBack (depth : Nat) (x : Contact) :
    Contact.shape.codec.ReadsBack (depth + 1) x :=
  Shape.readsBack (by decide) <| .cons (Field.restores_defaulted (readsBack_text ..)) .nil

theorem License.readsBack (depth : Nat) (x : License) :
    License.shape.codec.ReadsBack (depth + 1) x :=
  Shape.readsBack (by decide) <|
    .cons (Field.restores_defaulted (readsBack_text ..)) <|
    .cons (Field.restores_unlessEmpty (readsBack_text ..) rfl) .nil

theorem ExternalDocs.readsBack (depth : Nat) (x : ExternalDocs) :
    ExternalDocs.shape.codec.ReadsBack (depth + 1) x :=
  Shape.readsBack (by decide) <|
    .cons (Field.restores_unlessEmpty (readsBack_text ..) rfl) <|
    .cons (Field.restores_required (readsBack_text ..)) .nil

theorem TagInfo.readsBack (depth : Nat) (x : TagInfo) :
    TagInfo.shape.codec.ReadsBack (depth + 2) x :=
  Shape.readsBack (by decide) <|
    .cons (Field.restores_required (readsBack_text ..)) <|
    .cons (Field.restores_unlessEmpty (readsBack_text ..) rfl) <|
    .cons (Field.restores_optional nofun (fun a _ => ExternalDocs.readsBack depth a) rfl) .nil

theorem Info.readsBack (depth : Nat) (x : Info) : Info.shape.codec.ReadsBack (depth + 2) x :=
  Shape.readsBack (by decide) <|
    .cons (Field.restores_defaulted (readsBack_text ..)) <|
    .cons (Field.restores_unlessEmpty (readsBack_text ..) rfl) <|
    .cons (Field.restores_defaulted (readsBack_text ..)) <|
    .cons (Field.restores_unlessEmpty (readsBack_text ..) rfl) <|
    .cons (Field.restores_optional nofun (fun a _ => Contact.readsBack depth a) rfl) <|
    .cons (Field.restores_optional nofun (fun a _ => License.readsBack depth a) rfl) .nil

/-- Free-form values that are read back if their numbers are integers. -/
def FreeForm (depth : Nat) (m : OrderedMap Text Json) : Prop :=
  ∀ v ∈ m.values, v.Integral → Codec.any.ReadsBack depth v

theorem FreeForm.readsBack {depth : Nat} {m : OrderedMap Text Json} (h : FreeForm depth m)
    (hint : ∀ v ∈ m.values, v.Integral) : (Codec.map .any).ReadsBack (depth + 1) m :=
  readsBack_map fun v hv => h v hv (hint v hv)

theorem FreeForm.yields (depth : Nat) : (Codec.map .any).read.Yields (depth + 1) (FreeForm depth) :=
  (Json.any_yields depth).map

theorem FreeForm.empty (depth : Nat) : FreeForm depth ∅ := fun _ hv => absurd hv List.not_mem_nil

theorem Metadata.readsBack {depth : Nat} {m : Metadata}
    (hsecurity : FreeForm (depth + 2) m.securityDefinitions)
    (hint : ∀ v ∈ m.securityDefinitions.values, v.Integral) :
    Metadata.shape.codec.ReadsBack (depth + 4) m :=
  Shape.readsBack (by decide) <|
    .cons (Field.restores_defaulted (readsBack_text ..)) <|
    .cons (Field.restores_defaulted (Info.readsBack ..)) <|
    .cons (Field.restores_unlessEmpty (readsBack_text ..) rfl) <|
    .cons (Field.restores_unlessEmpty (readsBack_text ..) rfl) <|
    .cons (Field.restores_defaulted (readsBack_list fun t _ => TagInfo.readsBack depth t)) <|
    .cons (Field.restores_unlessEmpty (readsBack_list fun _ _ => readsBack_text ..) rfl) <|
    .cons (Field.restores_unlessEmptyMap (hsecurity.readsBack hint) rfl) .nil

/-- **Metadata that were read** have free-form values that are read back. -/
theorem Metadata.yields (depth : Nat) :
    Metadata.shape.read.Yields (depth + 4) fun m => FreeForm (depth + 2) m.securityDefinitions :=
  Shape.yields (FreeForm.empty _)
    ⟨Field.keeps_other fun _ _ h => h, Field.keeps_other fun _ _ h => h,
      Field.keeps_other fun _ _ h => h, Field.keeps_other fun _ _ h => h,
      Field.keeps_other fun _ _ h => h, Field.keeps_other fun _ _ h => h,
      Field.keeps_of (FreeForm.yields _) fun _ _ h _ => h⟩

end ApiAnnotations

import ApiAnnotations.Proofs.DirectiveTable

/-! # The description of a block

A block is described by its first `@description` if that is followed by words, and otherwise by the
text above its first directive.

* `descriptions lines` : what the lines with `@description` say, in order; `textAbove? lines` : the
  text above the first directive.
* `description_ofLines` : the description of a block.
* `described? lines` : what the first `@description` that is followed by words says, or the text
  above. `description_eq_described_iff` : this is the description unless an empty `@description`
  stands above that line. -/

namespace ApiAnnotations

namespace DirectiveTable

/-- The arguments of the lines with `@description`. -/
def descriptions (lines : List Text) : List Text :=
  lines.filterMap (Directive.argument? .description)

/-- The lines above the first one written as a directive, trimmed and joined with single spaces. -/
def textAbove? (lines : List Text) : Option Text :=
  match ((above lines).map Text.trim).filter (· ≠ []) with
  | [] => none
  | ts => some (Text.unwords ts)

/-- The first argument of `@description` that is not empty, or the text above the directives. -/
def described? (lines : List Text) : Option Text :=
  ((descriptions lines).find? (· ≠ [])).or (textAbove? lines)

theorem textAbove?_eq (lines : List Text) :
    textAbove? lines = if (ofLines lines).preamble.isEmpty then none
      else some (Text.unwords (ofLines lines).preamble) := by
  have hpreamble : (ofLines lines).preamble =
      ((above lines).map Text.trim).filter (· ≠ []) := by
    rw [preamble_ofLines]
    refine List.filter_congr fun l _ => ?_
    cases l with
    | nil => rfl
    | cons c l => rfl
  rw [textAbove?, ← hpreamble]
  cases (ofLines lines).preamble with
  | nil => rfl
  | cons t ts => rfl

/-- **The description of a block** is what its first `@description` says, if it says anything, and
otherwise the text above its directives. -/
theorem description_ofLines (lines : List Text) :
    (ofLines lines).description =
      ((descriptions lines).head?.filter (· ≠ [])).or (textAbove? lines) := by
  rw [description, first?, arguments_eq_filterMap, textAbove?_eq, descriptions]
  cases (lines.filterMap (Directive.argument? .description)).head? with
  | none => rfl
  | some a =>
    cases a with
    | nil => rfl
    | cons c s => rfl

/-- Both rules take a first `@description` that says something. -/
theorem description_eq_described_of_head? {lines : List Text}
    (h : (descriptions lines).head? ≠ some []) :
    (ofLines lines).description = described? lines := by
  rw [description_ofLines, described?]
  cases hlines : descriptions lines with
  | nil => rfl
  | cons a as =>
    have hne : a ≠ [] := fun ha => h (by rw [hlines, ha]; rfl)
    simp [hne]

/-- **An empty `@description` hides the others.**  A block is described by its first `@description`
alone, or by the text above its directives. It is described by the first `@description` that says
something, or without one by that text, exactly if the first `@description` is not empty, or no
other one says anything, or the first that does says the same as the text above. -/
theorem description_eq_described_iff (lines : List Text) :
    (ofLines lines).description =
      ((descriptions lines).head?.filter (· ≠ [])).or (textAbove? lines) ∧
    ((ofLines lines).description = described? lines ↔
      ((descriptions lines).head? = some [] →
        ∀ a, (descriptions lines).find? (· ≠ []) = some a → textAbove? lines = some a)) := by
  refine ⟨description_ofLines lines, fun heq hhead a ha => ?_, fun h => ?_⟩
  · rw [description_ofLines, described?, hhead, ha] at heq
    exact heq
  · by_cases hhead : (descriptions lines).head? = some []
    · rw [description_ofLines, described?, hhead]
      cases hfind : (descriptions lines).find? (· ≠ []) with
      | none => rfl
      | some a => exact h hhead a hfind
    · exact description_eq_described_of_head? hhead

/-- A block whose first `@description` is empty. -/
def emptyDescription : List Text := ["@description", "@description Lists the pads"]

/-- The block has no description, though one of its lines gives one. -/
theorem emptyDescription_hides :
    (ofLines emptyDescription).description = none ∧
      described? emptyDescription = some "Lists the pads".toList := by
  decide

end DirectiveTable

end ApiAnnotations

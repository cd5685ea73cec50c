import ApiAnnotations.Text
import ApiAnnotations.Text.CaseTable

/-! # Lower case

Full Unicode lower-casing, independent of any language. Two characters are special: U+0130 becomes
two characters, and a capital sigma becomes a final sigma where it ends a word. -/

namespace ApiAnnotations.Text

open CaseTable

/-- Whether a code point lies in one of the inclusive ranges. -/
def inRanges (ranges : List (Nat × Nat)) (n : Nat) : Bool :=
  ranges.any (fun (first, last) => first ≤ n && n ≤ last)

/-- The lower-case code point of a code point, context aside. -/
def lowerCodePoint (n : Nat) : Nat :=
  match lowerMappings.find? (fun (first, last, step, _) =>
    first ≤ n && n ≤ last && (n - first) % step == 0) with
  | some (_, _, _, shift) => (n + shift).toNat
  | none => n

/-- Whether the first character that case mapping does not ignore is cased. -/
def meetsCased (s : Text) : Bool :=
  match s.find? (fun c => !inRanges ignorableRanges c.toNat) with
  | some c => inRanges casedRanges c.toNat
  | none => false

/-- A capital sigma in lower case, between the reversed text before it and the text after it. -/
def lowerSigma (before after : Text) : Char :=
  if meetsCased before && !meetsCased after then 'ς' else 'σ'

/-- The lower-case form of what follows the reversed text `before`. -/
def lowerAfter : (before : Text) → Text → Text
  | _, [] => []
  | before, c :: s =>
    let lowered : Text :=
      if c = 'Σ' then [lowerSigma before s]
      else if c = 'İ' then ['i', Char.ofNat 0x307]
      else [Char.ofNat (lowerCodePoint c.toNat)]
    lowered ++ lowerAfter (c :: before) s

def toLower (s : Text) : Text := lowerAfter [] s

end ApiAnnotations.Text

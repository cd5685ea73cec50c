import ApiAnnotations.Json
import ApiAnnotations.Json.Quoted

/-! # Reading quoted texts

* `Quoted.read_escape` : what `Json.quote` writes is read up to its closing quote, whatever follows.
* `Quoted.text_ofText` : the pieces read are those of the text. -/

namespace ApiAnnotations.Json

/-- Control characters that are written without naming their code. -/
def shortEscapes : List Char := ['\n', '\t', '\r', Char.ofNat 8, Char.ofNat 12]

/-- The piece that is read where a character was written. -/
def Piece.ofChar (c : Char) : Piece :=
  if c.toNat < 32 ∧ c ∉ shortEscapes then .unit c.toNat else .char c

namespace Quoted

/-- The quoted text that is read where a text was written. -/
def ofText (s : Text) : Quoted := ⟨s.map Piece.ofChar, none⟩

/-! ## Pieces -/

theorem read_plain {c : Char} (s : Text) (hquote : c ≠ '"') (hslash : c ≠ '\\')
    (hplain : ¬ c < leastPlain) : read (c :: s) = consPiece (.char c) (read s) := by
  rw [read.eq_def]
  split
  case h_7 heq =>
    obtain ⟨rfl, rfl⟩ := List.cons.inj heq
    exact if_neg hplain
  all_goals simp_all

theorem hexUnit?_code : ∀ n < 32, hexUnit? '0' '0' (hexDigit (n / 16)) (hexDigit n) = some n := by
  decide

theorem read_code {n : Nat} (s : Text) (h : n < 32) :
    read ('\\' :: 'u' :: '0' :: '0' :: hexDigit (n / 16) :: hexDigit n :: s) =
      consPiece (.unit n) (read s) := by
  rw [read, hexUnit?_code n h]

/-- An escaped character is read as one piece. -/
theorem read_escape_append (c : Char) (s : Text) :
    read (escape c ++ s) = consPiece (.ofChar c) (read s) := by
  by_cases hshort : c ∈ ['"', '\\', '\n', '\t', '\r', Char.ofNat 8, Char.ofNat 12]
  · simp only [List.mem_cons, List.not_mem_nil, or_false] at hshort
    rcases hshort with rfl | rfl | rfl | rfl | rfl | rfl | rfl <;>
      exact read.eq_def _
  · simp only [List.mem_cons, List.not_mem_nil, or_false, not_or] at hshort
    obtain ⟨hquote, hslash, hrest⟩ := hshort
    have hlong : c ∉ shortEscapes := by simpa [shortEscapes] using hrest
    by_cases hcontrol : c.toNat < 32
    · have he : escape c = ['\\', 'u', '0', '0', hexDigit (c.toNat / 16), hexDigit c.toNat] := by
        simp [escape, hquote, hslash, hrest, hcontrol]
      rw [he, Piece.ofChar, if_pos ⟨hcontrol, hlong⟩]
      exact read_code s hcontrol
    · have he : escape c = [c] := by simp [escape, hquote, hslash, hrest, hcontrol]
      rw [he, Piece.ofChar, if_neg fun h => hcontrol h.1]
      exact read_plain s hquote hslash fun h => hcontrol h

/-- **A quoted text is read up to its closing quote.** -/
theorem read_escape (s rest : Text) :
    read (s.flatMap escape ++ '"' :: rest) = (ofText s, rest) := by
  induction s with
  | nil => rw [List.flatMap_nil, List.nil_append, read]; rfl
  | cons c s ih =>
    rw [List.flatMap_cons, List.append_assoc, read_escape_append, ih]
    rfl

/-! ## Characters -/

/-- A code unit that is no surrogate stands for a character. -/
theorem characters_unit {n : Nat} (f : Option Fault) (ps : List Piece) (h : n < 0xD800) :
    characters f (.unit n :: ps) = (characters f ps).map (Char.ofNat n :: ·) := by
  have hlead : isLead n = false := by simp [isLead]; omega
  have htrail : isTrail n = false := by simp [isTrail]; omega
  match ps with
  | [] => simp [characters, hlead, htrail]
  | .unit m :: ps => simp [characters, hlead, htrail]
  | .char c :: ps => simp [characters, hlead, htrail]

theorem characters_ofChar (f : Option Fault) (c : Char) (ps : List Piece) :
    characters f (.ofChar c :: ps) = (characters f ps).map (c :: ·) := by
  by_cases h : c.toNat < 32 ∧ c ∉ shortEscapes
  · rw [Piece.ofChar, if_pos h, characters_unit f ps (by omega), Char.ofNat_toNat]
  · rw [Piece.ofChar, if_neg h, characters]

/-- **The pieces of a written text are those of the text.** -/
theorem text_ofText (s : Text) : (ofText s).text = .ok s := by
  change characters none (s.map Piece.ofChar) = .ok s
  induction s with
  | nil => rfl
  | cons c s ih => rw [List.map_cons, characters_ofChar, ih]; rfl

end Quoted

end ApiAnnotations.Json

import ApiAnnotations.Text

/-! # Lines

A line feed ends a line, together with one carriage return directly before it. What follows the last
line feed is a line if it is nonempty, and keeps a carriage return at its end. The rule is stated
for lists over any type, since it reads bytes as well as characters. -/

namespace ApiAnnotations.Text

/-- A list without one `cr` at its end. -/
def dropFinal {α : Type} [DecidableEq α] (cr : α) (s : List α) : List α :=
  if s.getLast? = some cr then s.dropLast else s

def linesOfPieces {α : Type} [DecidableEq α] (cr : α) : List (List α) → List (List α)
  | [] => []
  | [p] => if p.isEmpty then [] else [p]
  | p :: q :: ps => dropFinal cr p :: linesOfPieces cr (q :: ps)

/-- The lines of a list in which `lf` ends a line, alone or after `cr`. -/
def cutLines {α : Type} [DecidableEq α] (lf cr : α) (s : List α) : List (List α) :=
  linesOfPieces cr (splitOn lf s)

def lines (s : Text) : List Text := cutLines '\n' '\r' s

end ApiAnnotations.Text

import ApiAnnotations.GrammarError

/-! # Comment blocks

A comment line begins with the comment start, which is not empty. The block around a line is that
line with the runs of comment lines directly above and below it, whether or not the line is itself a
comment line; its text is the lines with one comment start removed from each that has it.

* `isCommentLine_iff` says with `++` which lines are comment lines; `uncomment_append` that a line
  loses one comment start.
* `CommentBlock.around` is the block around a line.
* `MarkedLine.all` are the lines containing a marker; a text without lines has none to search.
* `CommentBlock.marked` are the blocks around the marked lines, one for each first line. -/

namespace ApiAnnotations

/-- Whether a line begins with the comment start; an empty comment start begins no comment. -/
def isCommentLine (start line : Text) : Bool := !start.isEmpty && Text.startsWith start line

/-- A line without one comment start at its beginning. -/
def uncomment (start line : Text) : Text := (Text.stripStart? start line).getD line

theorem isCommentLine_iff {start line : Text} :
    isCommentLine start line = true ↔ start ≠ [] ∧ ∃ rest, line = start ++ rest := by
  rw [isCommentLine, Bool.and_eq_true, Text.startsWith_iff]
  simp

theorem uncomment_append (start rest : Text) : uncomment start (start ++ rest) = rest := by
  rw [uncomment, Text.stripStart?_eq_some_iff.mpr rfl, Option.getD_some]

/-- Neighbouring lines of a file, uncommented, with the indices of the first and the last. -/
structure CommentBlock where
  lines : List Text
  firstLine : Nat
  lastLine : Nat
deriving DecidableEq

namespace CommentBlock

def nextLine (block : CommentBlock) : Nat := block.lastLine + 1

/-- The number of comment lines directly above line `k`. -/
def runAbove (start : Text) (lines : List Text) (k : Nat) : Nat :=
  ((lines.take k).reverse.takeWhile (isCommentLine start)).length

/-- The number of comment lines directly below line `k`. -/
def runBelow (start : Text) (lines : List Text) (k : Nat) : Nat :=
  ((lines.drop (k + 1)).takeWhile (isCommentLine start)).length

/-- The block around line `k`. -/
def around (start : Text) (lines : List Text) (k : Nat) : CommentBlock :=
  let first := k - runAbove start lines k
  let last := k + runBelow start lines k
  ⟨((lines.drop first).take (last + 1 - first)).map (uncomment start), first, last⟩

/-- The blocks whose first line is not among `seen` or the first line of an earlier one. -/
def distinct (seen : List Nat) : List CommentBlock → List CommentBlock
  | [] => []
  | b :: bs =>
    if b.firstLine ∈ seen then distinct seen bs else b :: distinct (b.firstLine :: seen) bs

end CommentBlock

/-- A line that contains the marker, with its index. -/
structure MarkedLine where
  marker : Text
  index : Nat
  line : Text
deriving DecidableEq

namespace MarkedLine

/-- The marked lines among lines counted from `index`. -/
def allFrom (marker : Text) : Nat → List Text → List MarkedLine
  | _, [] => []
  | index, line :: lines =>
    if Text.contains marker line then ⟨marker, index, line⟩ :: allFrom marker (index + 1) lines
    else allFrom marker (index + 1) lines

/-- The marked lines, in order. -/
def all (marker : Text) (lines : List Text) : Except GrammarError (List MarkedLine) :=
  if lines.isEmpty then .error .noLines else .ok (allFrom marker 0 lines)

end MarkedLine

/-- The blocks around the marked lines, in the order of these lines, one for each first line. -/
def CommentBlock.marked (start marker : Text) (lines : List Text) : List CommentBlock :=
  distinct [] ((MarkedLine.allFrom marker 0 lines).map (fun m => around start lines m.index))

end ApiAnnotations

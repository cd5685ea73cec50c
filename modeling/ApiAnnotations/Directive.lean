import ApiAnnotations.OrderedMap
import ApiAnnotations.Text.Blank

/-! # Directives

A line of a comment block that begins with `@` is a directive: its first word names it, and its
other words, joined with single spaces, are one argument. The vocabulary is closed; a line naming
anything else is ignored. Text before the first `@` line is the preamble, text after it is ignored.

* `DirectiveTable.ofLines` reads the lines of a block.
* `DirectiveTable.description` is the text describing what the block annotates. -/

namespace ApiAnnotations

inductive Directive
  | description
  | route
  | model
  | response
  | param
  | tag
deriving DecidableEq

namespace Directive

/-- The directive of a name written after `@`; `tags` is another spelling of `tag`. -/
def ofName? (name : Text) : Option Directive :=
  if name = "description".toList then some .description
  else if name = "route".toList then some .route
  else if name = "model".toList then some .model
  else if name = "return".toList then some .response
  else if name = "param".toList then some .param
  else if name = "tag".toList ∨ name = "tags".toList then some .tag
  else none

def name : Directive → Text
  | .description => "description"
  | .route => "route"
  | .model => "model"
  | .response => "return"
  | .param => "param"
  | .tag => "tag"

theorem ofName?_name (d : Directive) : ofName? d.name = some d := by
  cases d <;> rfl

/-- Whether a line is written as a directive, known or not. -/
def isLine (line : Text) : Bool := line.head? = some '@'

/-- The directive of a line and its argument, if the line names one of the vocabulary. -/
def ofLine? (line : Text) : Option (Directive × Text) :=
  if isLine line then
    match Text.words line with
    | [] => none
    | w :: ws => (ofName? w.tail).map (fun d => (d, Text.unwords ws))
  else none

end Directive

/-- The arguments of each directive of a block, in order of appearance, and the preamble. -/
structure DirectiveTable where
  entries : OrderedMap Directive (List Text)
  preamble : List Text
deriving DecidableEq

namespace DirectiveTable

def arguments (table : DirectiveTable) (d : Directive) : List Text := (table.entries.get? d).getD []

/-- The first argument of a directive. -/
def first? (table : DirectiveTable) (d : Directive) : Option Text := (table.arguments d).head?

def push (entries : OrderedMap Directive (List Text)) (e : Directive × Text) :
    OrderedMap Directive (List Text) :=
  entries.insert e.1 ((entries.get? e.1).getD [] ++ [e.2])

def ofLines (lines : List Text) : DirectiveTable where
  entries := (lines.filterMap Directive.ofLine?).foldl push ∅
  preamble := ((lines.takeWhile (fun l => !Directive.isLine l)).map Text.trim).filter
    (fun l => !l.isEmpty)

/-- The first argument of `@description` if it is nonempty, otherwise the preamble if there is any. -/
def description (table : DirectiveTable) : Option Text :=
  match table.first? .description with
  | some (c :: s) => some (c :: s)
  | _ => if table.preamble.isEmpty then none else some (Text.unwords table.preamble)

end DirectiveTable

end ApiAnnotations

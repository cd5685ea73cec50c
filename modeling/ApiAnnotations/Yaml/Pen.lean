import ApiAnnotations.Yaml.Style

/-! # The pen

A pen writes characters one after the other and knows where it stands: in which column, whether
after a blank, and whether the line holds nothing but indentation and indicators. What is written
next depends on this only.

* `Pen.indent`, `Pen.indicator` and `Pen.scalar` are all that a tree is written with. -/

namespace ApiAnnotations.Yaml

/-- What was written, the last character first, and where the pen stands. -/
structure Pen where
  written : List Char
  column : Nat
  afterBlank : Bool
  onlyIndent : Bool

namespace Pen

def start : Pen := ⟨[], 0, true, true⟩

def text (pen : Pen) : Text := pen.written.reverse

def put (pen : Pen) (c : Char) : Pen :=
  { pen with written := c :: pen.written, column := pen.column + 1 }

def puts (pen : Pen) (s : Text) : Pen := s.foldl put pen

def lineBreak (pen : Pen) (c : Char) : Pen := { pen with written := c :: pen.written, column := 0 }

/-- Goes to a column, on a new line unless the line is fresh. -/
def indent (pen : Pen) (column : Nat) : Pen :=
  let stays := pen.onlyIndent && (pen.column < column || (pen.column == column && pen.afterBlank))
  let pen := if stays then pen else pen.lineBreak '\n'
  let pen := pen.puts (List.replicate (column - pen.column) ' ')
  { pen with afterBlank := true, onlyIndent := true }

/-- Writes a space unless the pen stands after one. -/
def gap (pen : Pen) : Pen := if pen.afterBlank then pen else pen.put ' '

def inside (pen : Pen) : Pen := { pen with afterBlank := false, onlyIndent := false }

/-- Writes an indicator after which a collection may begin on the same line. -/
def marker (pen : Pen) (c : Char) : Pen := { pen.gap.put c with afterBlank := false }

/-- Writes an indicator directly after what it belongs to. -/
def suffix (pen : Pen) (c : Char) : Pen := (pen.put c).inside

def plain (pen : Pen) (s : Text) : Pen := (pen.gap.puts s).inside

/-! ## Single quotes -/

/-- Writes one character in single quotes; `broken` says that a break was written before. After
breaks the indentation is written, a quote is written twice, and so is the first of several line
feeds. -/
def singleStep (column : Nat) (state : Pen × Bool) (c : Char) : Pen × Bool :=
  let (pen, broken) := state
  if c = ' ' then (pen.put c, broken)
  else if isBreak c then
    let pen := if !broken && c = '\n' then pen.lineBreak '\n' else pen
    ({ pen.lineBreak c with onlyIndent := true }, true)
  else
    let pen := if broken then pen.indent column else pen
    let pen := if c = '\'' then pen.put c else pen
    ({ pen.put c with onlyIndent := false }, false)

/-- Writes a text in single quotes, with its further lines indented. -/
def single (pen : Pen) (column : Nat) (s : Text) : Pen :=
  let (pen, broken) := s.foldl (singleStep column) ((pen.gap.put '\'').inside, false)
  ((if broken then pen.indent column else pen).put '\'').inside

/-! ## Double quotes -/

def hex (width n : Nat) : Text :=
  (List.range width).reverse.map (fun i => (Nat.digitChar (n / Nat.pow 16 i % 16)).toUpper)

def letterEscapes : List (Nat × Char) :=
  [(0, '0'), (7, 'a'), (8, 'b'), (9, 't'), (10, 'n'), (11, 'v'), (12, 'f'), (13, 'r'), (0x1B, 'e'),
    (0x22, '"'), (0x5C, '\\'), (0x85, 'N'), (0xA0, '_'), (0x2028, 'L'), (0x2029, 'P')]

/-- The escape of a character, after the backslash. -/
def escape (c : Char) : Text :=
  let n := c.toNat
  match letterEscapes.lookup n with
  | some letter => [letter]
  | none =>
    if n ≤ 0xFF then 'x' :: hex 2 n
    else if n ≤ 0xFFFF then 'u' :: hex 4 n
    else 'U' :: hex 8 n

def quoted (c : Char) : Text :=
  if !isPrintable c || isBreak c || c = '"' || c = '\\' then '\\' :: escape c else [c]

def double (pen : Pen) (s : Text) : Pen :=
  ((pen.gap.put '"').puts (s.flatMap quoted) |>.put '"').inside

/-! ## Literal blocks -/

/-- What stands after the bar: the indentation if the text does not show it, and what becomes of the
breaks at the end. -/
def hints (step : Nat) (s : Text) : Text :=
  (if (s.head?.map isSpaceOrBreak).getD false then Text.Decimal.ofNat step else []) ++
    match s.reverse with
    | [] => ['-']
    | [c] => if isBreak c then ['+'] else ['-']
    | c :: d :: _ => if !isBreak c then ['-'] else if isBreak d then ['+'] else []

/-- Writes one character of a literal block; `broken` says that a line begins. -/
def literalStep (column : Nat) (state : Pen × Bool) (c : Char) : Pen × Bool :=
  let (pen, broken) := state
  if isBreak c then ({ pen.lineBreak c with onlyIndent := true }, true)
  else
    let pen := if broken then pen.indent column else pen
    ({ pen.put c with onlyIndent := false }, false)

def literal (pen : Pen) (step column : Nat) (s : Text) : Pen :=
  let pen := (pen.gap.put '|').puts (hints step s)
  let pen := { pen.lineBreak '\n' with afterBlank := true, onlyIndent := true }
  (s.foldl (literalStep column) (pen, true)).1

/-- Writes a text in its style; further lines go to a column, which is a step to the right. -/
def scalar (pen : Pen) (step column : Nat) (s : Text) : Pen :=
  match Style.of s with
  | .plain => pen.plain s
  | .single => pen.single column s
  | .double => pen.double s
  | .literal => pen.literal step column s

end Pen

end ApiAnnotations.Yaml

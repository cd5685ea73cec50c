import ApiAnnotations.Yaml.Resolution

/-! # Styles of scalars

A text is written unquoted if it can be, and otherwise in single quotes, in double quotes, or line
by line in a literal block.

* `Yaml.Style.of s` is the style of a text. -/

namespace ApiAnnotations.Yaml

def isBreak (c : Char) : Bool :=
  c = '\n' || c = '\r' || c = Char.ofNat 0x85 || c = Char.ofNat 0x2028 || c = Char.ofNat 0x2029

def isPrintable (c : Char) : Bool :=
  let n := c.toNat
  n == 0x0A || (0x20 ≤ n && n ≤ 0x7E) || (0xA0 ≤ n && n ≤ 0xD7FF) ||
    (0xE000 ≤ n && n ≤ 0xFFFD && n != 0xFEFF) || 0x10000 ≤ n

/-- A space, a tab, a break, or the end of the text. -/
def isGap : Option Char → Bool
  | none => true
  | some c => c = ' ' || c = '\t' || isBreak c

def indicators : Text := "#,[]\x7b\x7d&*!|>'\"%@`"

/-- The characters that may not begin an unquoted text if a gap follows. -/
def gapIndicators : Text := "?:-"

/-- Whether two neighbours, the second of which may be the end, are such a pair somewhere. -/
def anyPair (p : Char → Option Char → Bool) : Text → Bool
  | [] => false
  | c :: s => p c s.head? || anyPair p s

/-- Whether the beginning of a text stands for something else. -/
def beginsIndicator (s : Text) : Bool :=
  Text.startsWith "---".toList s || Text.startsWith "...".toList s ||
    match s with
    | [] => false
    | c :: rest => indicators.elem c || (gapIndicators.elem c && isGap rest.head?)

/-- Whether a character is the end of a key or the beginning of a comment. -/
def containsIndicator (s : Text) : Bool :=
  anyPair (fun c next => (c = ':' && isGap next) || (isGap (some c) && next == some '#')) s

def isSpaceOrBreak (c : Char) : Bool := c = ' ' || isBreak c

def hasSpaceBreak (s : Text) : Bool :=
  anyPair (fun c next => c = ' ' && (next.map isBreak).getD false) s

def hasBreakSpace (s : Text) : Bool := anyPair (fun c next => isBreak c && next == some ' ') s

/-- Whether only escapes can keep the text. -/
def needsEscape (s : Text) : Bool := !s.all isPrintable || hasSpaceBreak s

def allowsPlain (s : Text) : Bool :=
  !needsEscape s && !s.any isBreak && !beginsIndicator s && !containsIndicator s &&
    !(s.head?.map isSpaceOrBreak).getD false && !(s.getLast?.map isSpaceOrBreak).getD false

def allowsSingle (s : Text) : Bool := !needsEscape s && !hasBreakSpace s

def allowsLiteral (s : Text) : Bool := !needsEscape s && s.getLast? != some ' '

inductive Style
  | plain
  | single
  | double
  | literal
deriving DecidableEq

def Style.of (s : Text) : Style :=
  if s.elem '\n' then if allowsLiteral s then .literal else .double
  else if !isAmbiguous s && allowsPlain s then .plain
  else if allowsSingle s then .single
  else .double

end ApiAnnotations.Yaml

import ApiAnnotations.Text.Utf8

/-! # Quoted texts of JSON

A quoted text is read in two steps: first into pieces, up to the closing quote or the first fault,
then into characters. The second step joins pairs of UTF-16 surrogates and refuses lone ones; a text
that is passed over does not take it.

* `Quoted.read` takes the first step, `Quoted.text` the second. -/

namespace ApiAnnotations.Json

/-- What can be wrong with a text that should be JSON of a certain kind: it ends too early, it is
not JSON, or it is JSON of another kind. -/
inductive Fault
  | unfinished
  | malformed
  | mismatch
deriving DecidableEq

/-- A piece of a quoted text: a character, or a UTF-16 code unit given by four hexadecimal digits. -/
inductive Piece
  | char (c : Char)
  | unit (n : Nat)
deriving DecidableEq

/-- The pieces of a quoted text up to its closing quote, or up to the fault that comes before it. -/
structure Quoted where
  pieces : List Piece
  fault : Option Fault
deriving DecidableEq

namespace Quoted

def hexValue? (c : Char) : Option Nat :=
  if '0' ≤ c ∧ c ≤ '9' then some (c.toNat - '0'.toNat)
  else if 'a' ≤ c ∧ c ≤ 'f' then some (c.toNat - 'a'.toNat + 10)
  else if 'A' ≤ c ∧ c ≤ 'F' then some (c.toNat - 'A'.toNat + 10)
  else none

def hexUnit? (a b c d : Char) : Option Nat :=
  match hexValue? a, hexValue? b, hexValue? c, hexValue? d with
  | some a, some b, some c, some d => some (((a * 16 + b) * 16 + c) * 16 + d)
  | _, _, _, _ => none

/-- The character that a letter stands for after a backslash. -/
def unescape? (c : Char) : Option Char :=
  if c = '"' ∨ c = '\\' ∨ c = '/' then some c
  else if c = 'b' then some (Char.ofNat 8)
  else if c = 'f' then some (Char.ofNat 12)
  else if c = 'n' then some '\n'
  else if c = 'r' then some '\r'
  else if c = 't' then some '\t'
  else none

/-- The least character that may stand unescaped. -/
def leastPlain : Char := ' '

def unitBytes : Nat := 4

/-- The fault of a code unit that lacks digits: with fewer than four bytes left, the text ends too
early. -/
def unitFault (s : Text) : Fault := if Text.utf8Size s < unitBytes then .unfinished else .malformed

def consPiece (p : Piece) (read : Quoted × Text) : Quoted × Text :=
  (⟨p :: read.1.pieces, read.1.fault⟩, read.2)

/-- What is read if nothing follows but a fault. -/
def stopped (f : Fault) : Quoted × Text := (⟨[], some f⟩, [])

/-- Reads what follows an opening quote and returns the text after the closing one. -/
def read : Text → Quoted × Text
  | [] => stopped .unfinished
  | '"' :: s => (⟨[], none⟩, s)
  | ['\\'] => stopped .unfinished
  | '\\' :: 'u' :: a :: b :: c :: d :: s =>
    match hexUnit? a b c d with
    | some n => consPiece (.unit n) (read s)
    | none => stopped .malformed
  | '\\' :: 'u' :: s => stopped (unitFault s)
  | '\\' :: c :: s =>
    match unescape? c with
    | some c => consPiece (.char c) (read s)
    | none => stopped .malformed
  | c :: s => if c < leastPlain then stopped .malformed else consPiece (.char c) (read s)

def isLead (n : Nat) : Bool := 0xD800 ≤ n && n ≤ 0xDBFF

def isTrail (n : Nat) : Bool := 0xDC00 ≤ n && n ≤ 0xDFFF

def pairChar (lead trail : Nat) : Char :=
  Char.ofNat (0x10000 + (lead - 0xD800) * 0x400 + (trail - 0xDC00))

/-- The characters of pieces that are followed by a closing quote or a fault. A leading surrogate
must be followed by a trailing one. -/
def characters (fault : Option Fault) : List Piece → Except Fault Text
  | [] =>
    match fault with
    | none => .ok []
    | some f => .error f
  | .char c :: ps => (characters fault ps).map (c :: ·)
  | [.unit n] =>
    if isLead n then .error (fault.getD .malformed)
    else if isTrail n then .error .malformed
    else (characters fault []).map (Char.ofNat n :: ·)
  | .unit n :: .unit m :: ps =>
    if isLead n then
      if isTrail m then (characters fault ps).map (pairChar n m :: ·) else .error .malformed
    else if isTrail n then .error .malformed
    else (characters fault (.unit m :: ps)).map (Char.ofNat n :: ·)
  | .unit n :: p :: ps =>
    if isLead n || isTrail n then .error .malformed
    else (characters fault (p :: ps)).map (Char.ofNat n :: ·)

def text (q : Quoted) : Except Fault Text := characters q.fault q.pieces

end Quoted

end ApiAnnotations.Json

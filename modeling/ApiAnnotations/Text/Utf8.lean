import ApiAnnotations.Text

/-! # UTF-8

Bytes are read by a small machine whose state says which continuation bytes are still owed. A byte
that does not continue what was begun ends it: the maximal ill-formed beginning is reported once,
and the byte starts anew.

* `scan bytes` is the sequence of characters read, with `none` for each ill-formed beginning.
* `decodeLossy` puts U+FFFD for it, `isUtf8` says that there is none, and `decode?` refuses it. -/

namespace ApiAnnotations.Text.Utf8

/-- What is owed: nothing, or a byte between `low` and `high`, followed by `more` continuation
bytes; `bits` is the value collected so far. -/
inductive State
  | start
  | owed (low high : UInt8) (more : Nat) (bits : Nat)
deriving DecidableEq

def begin (b : UInt8) : List (Option Char) × State :=
  let n := b.toNat
  if n < 0x80 then ([some (Char.ofNat n)], .start)
  else if n < 0xC2 then ([none], .start)
  else if n < 0xE0 then ([], .owed 0x80 0xBF 0 (n - 0xC0))
  else if n = 0xE0 then ([], .owed 0xA0 0xBF 1 0)
  else if n = 0xED then ([], .owed 0x80 0x9F 1 0xD)
  else if n < 0xF0 then ([], .owed 0x80 0xBF 1 (n - 0xE0))
  else if n = 0xF0 then ([], .owed 0x90 0xBF 2 0)
  else if n < 0xF4 then ([], .owed 0x80 0xBF 2 (n - 0xF0))
  else if n = 0xF4 then ([], .owed 0x80 0x8F 2 4)
  else ([none], .start)

/-- The effect of a byte in a state: what is read, and the state after it. -/
def next : State → UInt8 → List (Option Char) × State
  | .start, b => begin b
  | .owed low high more bits, b =>
    if low ≤ b ∧ b ≤ high then
      let bits := bits * 64 + (b.toNat - 0x80)
      match more with
      | 0 => ([some (Char.ofNat bits)], .start)
      | more + 1 => ([], .owed 0x80 0xBF more bits)
    else (none :: (begin b).1, (begin b).2)

def finish : State → List (Option Char)
  | .start => []
  | .owed .. => [none]

def scanFrom : State → List UInt8 → List (Option Char)
  | state, [] => finish state
  | state, b :: bytes => (next state b).1 ++ scanFrom (next state b).2 bytes

/-- The characters of the bytes, with `none` for each maximal ill-formed beginning. -/
def scan (bytes : List UInt8) : List (Option Char) := scanFrom .start bytes

end Utf8

/-- The characters of the bytes, with U+FFFD for each maximal ill-formed beginning. -/
def decodeLossy (bytes : List UInt8) : Text :=
  (Utf8.scan bytes).map (fun c => c.getD (Char.ofNat 0xFFFD))

def isUtf8 (bytes : List UInt8) : Bool := (Utf8.scan bytes).all Option.isSome

/-- The text encoded by the bytes, if they are well-formed. -/
def decode? (bytes : List UInt8) : Option Text :=
  if isUtf8 bytes then some (decodeLossy bytes) else none

def encode (s : Text) : List UInt8 := s.flatMap String.utf8EncodeChar

def utf8Size (s : Text) : Nat := s.foldl (fun n c => n + c.utf8Size) 0

end ApiAnnotations.Text

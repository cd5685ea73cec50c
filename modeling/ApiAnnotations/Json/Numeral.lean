import ApiAnnotations.Json

/-! # Numerals of JSON

A numeral is an optional minus sign, a whole part without superfluous zeros, and optionally a
fraction and an exponent.

* `Numeral.read` reads one, or tells whether the text ended too early.
* `Numeral.value?` is the number it denotes. Digits are collected as long as the significand fits
  into 64 bits; what does not fit is dropped, and counted where it stands before the point. -/

namespace ApiAnnotations.Json

/-- The parts of a numeral, as digits. The exponent says whether it is negative. -/
structure Numeral where
  negative : Bool
  whole : Text
  fraction : Option Text
  exponent : Option (Bool × Text)
deriving DecidableEq

namespace Numeral

open Text.Decimal (isDigit digitValue value)

/-- Reads at least one digit; `true` says that the text ended. -/
def readDigits (s : Text) : Except Bool (Text × Text) :=
  match s.span isDigit with
  | ([], rest) => .error rest.isEmpty
  | (digits, rest) => .ok (digits, rest)

/-- Reads a whole part. After a leading zero no digit may follow. -/
def readWhole : Text → Except Bool (Text × Text)
  | '0' :: s => if (s.head?.map isDigit).getD false then .error false else .ok (['0'], s)
  | s => readDigits s

/-- Reads a fraction, if there is one. -/
def readFraction : Text → Except Bool (Option Text × Text)
  | '.' :: s => (readDigits s).map (fun (digits, rest) => (some digits, rest))
  | s => .ok (none, s)

def readSign : Text → Bool × Text
  | '+' :: s => (false, s)
  | '-' :: s => (true, s)
  | s => (false, s)

/-- Reads an exponent, if there is one. -/
def readExponent : Text → Except Bool (Option (Bool × Text) × Text)
  | c :: s =>
    if c = 'e' ∨ c = 'E' then
      (readDigits (readSign s).2).map (fun (digits, rest) => (some ((readSign s).1, digits), rest))
    else .ok (none, c :: s)
  | [] => .ok (none, [])

/-- Reads a minus sign, if there is one. -/
def readMinus : Text → Bool × Text
  | '-' :: s => (true, s)
  | s => (false, s)

/-- Reads a numeral and returns the text after it, or tells whether the text ended too early. -/
def read (s : Text) : Except Bool (Numeral × Text) := do
  let (negative, s) := readMinus s
  let (whole, s) ← readWhole s
  let (fraction, s) ← readFraction s
  let (exponent, s) ← readExponent s
  .ok (⟨negative, whole, fraction, exponent⟩, s)

/-! ## Values -/

/-- The largest significand that is kept. -/
def maxSignificand : Nat := Nat.pow 2 64 - 1

/-- The largest absolute value of a negative integer. -/
def maxNegative : Nat := Nat.pow 2 63

/-- Collects digits as long as the significand fits, and returns the digits left over. -/
def collect (significand : Nat) : Text → Nat × Text
  | [] => (significand, [])
  | c :: s =>
    let next := significand * 10 + digitValue c
    if next ≤ maxSignificand then collect next s else (significand, c :: s)

def writtenExponent (n : Numeral) : Int :=
  match n.exponent with
  | none => 0
  | some (true, digits) => -(value digits : Int)
  | some (false, digits) => value digits

def float? (negative : Bool) (significand : Nat) (exponent : Int) : Option Number :=
  (Binary64.scaled? significand exponent).map (Number.float negative)

/-- The number denoted, or nothing if it is beyond the largest double. -/
def value? (n : Numeral) : Option Number :=
  let (significand, dropped) := collect 0 n.whole
  match n.fraction, n.exponent, dropped with
  | none, none, [] =>
    if !n.negative then some (.integer significand)
    else if significand ≠ 0 ∧ significand ≤ maxNegative then some (.integer (-significand))
    else float? true significand 0
  | fraction, _, _ =>
    let digits := fraction.getD []
    let (significand, unused) := collect significand digits
    float? n.negative significand
      (dropped.length - (digits.length - unused.length : Nat) + n.writtenExponent)

end Numeral

end ApiAnnotations.Json

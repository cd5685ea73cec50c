import ApiAnnotations.Binary64
import ApiAnnotations.Text.Decimal

/-! # What an unquoted scalar is read as

An unquoted text may be read as null, a truth value or a number.

* `Yaml.isAmbiguous s` says that `s` unquoted would not be read as the text `s`. -/

namespace ApiAnnotations.Yaml

open Text.Decimal (isDigit value)

def reservedWords : List Text :=
  ["~", "null", "Null", "NULL", "true", "True", "TRUE", "false", "False", "FALSE"]

/-- A text without one minus sign at its beginning, and whether there was one. -/
def splitMinus : Text → Bool × Text
  | '-' :: s => (true, s)
  | s => (false, s)

/-- A text without one sign at its beginning, and whether that was a minus. -/
def splitSign : Text → Bool × Text
  | '+' :: s => (false, s)
  | s => splitMinus s

/-! ## Integers in other bases -/

def digitIn? (base : Nat) (c : Char) : Option Nat :=
  let digit :=
    if isDigit c then some (c.toNat - '0'.toNat)
    else if 'a' ≤ c ∧ c ≤ 'f' then some (c.toNat - 'a'.toNat + 10)
    else if 'A' ≤ c ∧ c ≤ 'F' then some (c.toNat - 'A'.toNat + 10)
    else none
  digit.filter (· < base)

def valueIn? (base : Nat) : Text → Option Nat
  | [] => none
  | s => s.foldl (fun n c => n.bind fun n => (digitIn? base c).map (n * base + ·)) (some 0)

def basedValue? : Text → Option Nat
  | '0' :: 'x' :: s => valueIn? 16 s
  | '0' :: 'o' :: s => valueIn? 8 s
  | '0' :: 'b' :: s => valueIn? 2 s
  | _ => none

/-- The largest integer. -/
def maxInteger : Nat := Nat.pow 2 128 - 1

/-- The absolute value of the least integer. -/
def maxNegative : Nat := Nat.pow 2 127

/-- Whether a text is an integer in a base that it names, within 128 bits. -/
def isBasedInteger (s : Text) : Bool :=
  let (negative, digits) := splitSign s
  match basedValue? digits with
  | none => false
  | some n => n ≤ if negative then maxNegative else maxInteger

/-! ## Decimal numbers -/

/-- Whether a text is a sign and digits of which the first of several is a zero. -/
def hasLeadingZero (s : Text) : Bool :=
  match (splitSign s).2 with
  | '0' :: c :: digits => (c :: digits).all isDigit
  | _ => false

/-- The parts of a decimal number: the digits before and after the point, and the exponent. -/
structure DecimalParts where
  whole : Text
  fraction : Text
  exponent : Int

/-- Reads the digits after a point, if there is one. -/
def readFraction : Text → Text × Text
  | '.' :: s => s.span isDigit
  | s => ([], s)

/-- The exponent that a text consists of; nothing is the exponent zero. -/
def exponent? : Text → Option Int
  | [] => some 0
  | c :: s =>
    let (negative, digits) := splitSign s
    if (c = 'e' ∨ c = 'E') ∧ digits ≠ [] ∧ digits.all isDigit then
      some (if negative then -(value digits : Int) else value digits)
    else none

/-- The parts of an unsigned decimal number with at least one digit. -/
def decimalParts? (s : Text) : Option DecimalParts :=
  let (whole, s) := s.span isDigit
  let (fraction, s) := readFraction s
  if whole.isEmpty && fraction.isEmpty then none
  else (exponent? s).map (⟨whole, fraction, ·⟩)

namespace DecimalParts

def significand (d : DecimalParts) : Nat := value (d.whole ++ d.fraction)

def power (d : DecimalParts) : Int := d.exponent - d.fraction.length

/-- More digits before the point than the largest double has. -/
def tooManyDigits : Int := 400

/-- Whether the number is within the doubles. Numbers below one and numbers with too many digits
need no exact comparison. -/
def isFinite (d : DecimalParts) : Bool :=
  let s := d.significand
  let before := (Text.Decimal.ofNat s).length + d.power
  if s = 0 ∨ before < 0 then true
  else if tooManyDigits < before then false
  else (Binary64.nearest (s * Nat.pow 10 d.power.toNat) (Nat.pow 10 (-d.power).toNat)).isSome

end DecimalParts

def infinities : List Text := [".inf", ".Inf", ".INF"]

/-- The words for no number, which have no sign. -/
def notNumbers : List Text := [".nan", ".NaN", ".NAN"]

def isFloat (s : Text) : Bool :=
  let unsigned := (splitSign s).2
  infinities.contains unsigned || notNumbers.contains s ||
    ((decimalParts? unsigned).map DecimalParts.isFinite).getD false

/-- Whether a text has to be quoted to be read as a text. -/
def isAmbiguous (s : Text) : Bool :=
  s.isEmpty || reservedWords.contains s || isBasedInteger s || hasLeadingZero s || isFloat s

end ApiAnnotations.Yaml

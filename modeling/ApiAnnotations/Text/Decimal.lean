import ApiAnnotations.Text

/-! # Decimal numerals

* `ofNat n` is the canonical numeral of a number, `ofInt` puts a minus sign before a negative one.
* `valueFrom` reads digits from the left, `unsigned?` a numeral of a bounded unsigned number: an
  optional plus sign and at least one ASCII digit, leading zeros allowed. -/

namespace ApiAnnotations.Text.Decimal

/-- The digits of a number, without leading zeros. -/
def ofNat (n : Nat) : Text := Nat.toDigits 10 n

def ofInt : Int → Text
  | .ofNat n => ofNat n
  | .negSucc n => '-' :: ofNat (n + 1)

/-- An ASCII digit. -/
def isDigit (c : Char) : Bool := '0' ≤ c && c ≤ '9'

def digitValue (c : Char) : Nat := c.toNat - '0'.toNat

/-- The value of `start` followed by digits. -/
def valueFrom (start : Nat) (digits : Text) : Nat :=
  digits.foldl (fun n c => n * 10 + digitValue c) start

def value (digits : Text) : Nat := valueFrom 0 digits

/-- The numeral without one plus sign at its beginning. -/
def dropPlus : Text → Text
  | '+' :: s => s
  | s => s

/-- The number up to `most` that a numeral denotes. -/
def unsigned? (most : Nat) (s : Text) : Option Nat :=
  let digits := dropPlus s
  if digits ≠ [] ∧ digits.all isDigit ∧ value digits ≤ most then some (value digits) else none

end ApiAnnotations.Text.Decimal

/-! # Double precision numbers

A finite double is `significand · 2 ^ exponent`. All arithmetic is on natural numbers, so every
value below is exact until it is rounded.

* `Binary64.nearest num den` rounds a quotient to the nearest double, ties to the even significand.
* `Binary64.scaled s e` is how a numeral with significand `s` and decimal exponent `e` is read: one
  product or quotient of doubles, and so not always the double nearest to `s · 10 ^ e`. -/

namespace ApiAnnotations

/-- The absolute value of a finite double. The significand is below `2 ^ 53`, and at least `2 ^ 52`
unless the exponent is the least one. -/
structure Binary64 where
  significand : Nat
  exponent : Int
deriving DecidableEq

namespace Binary64

def leastExponent : Int := -1074

/-- The exponent of the largest doubles. -/
def greatestExponent : Int := 971

/-- The least significand with all its bits in use. -/
def leastNormal : Nat := Nat.pow 2 52

/-- The double zero. -/
def zero : Binary64 := ⟨0, leastExponent⟩

/-- Whether a double is zero. -/
def isZero (x : Binary64) : Bool := x.significand == 0

/-- `a · 2 ^ e`, or `a` if the exponent is negative. -/
def shifted (a : Nat) (e : Int) : Nat := a * Nat.pow 2 e.toNat

/-- Rounds a quotient to the nearest integer, ties to even. -/
def roundDiv (num den : Nat) : Nat :=
  let q := num / den
  let r := num % den
  if den < 2 * r ∨ (2 * r = den ∧ q % 2 = 1) then q + 1 else q

/-- The quotient rounded to a multiple of `2 ^ e`, in these units. -/
def roundAt (num den : Nat) (e : Int) : Nat := roundDiv (shifted num (-e)) (shifted den e)

/-- The number of bits before the binary point of a quotient, or one less. -/
def magnitude (num den : Nat) : Int := (num.log2 : Int) - (den.log2 : Int)

/-- The exponent that gives a quotient 53 significant bits, or the least one. -/
def exponentFor (num den : Nat) : Int :=
  let e := magnitude num den - 52
  let e := if shifted num (-e) < leastNormal * shifted den e then e - 1 else e
  max e leastExponent

/-- The double nearest to `num / den`, or nothing if that is beyond the largest double. -/
def nearest (num den : Nat) : Option Binary64 :=
  if num = 0 then some zero
  else
    let e := exponentFor num den
    let s := roundAt num den e
    let x : Binary64 := if s = 2 * leastNormal then ⟨leastNormal, e + 1⟩ else ⟨s, e⟩
    if greatestExponent < x.exponent then none else some x

def numerator (x : Binary64) : Nat := shifted x.significand x.exponent

def denominator (x : Binary64) : Nat := shifted 1 (-x.exponent)

/-- The double nearest to a natural number. -/
def ofNat? (n : Nat) : Option Binary64 := nearest n 1

/-- The product of two doubles, rounded. -/
def mul? (x y : Binary64) : Option Binary64 :=
  nearest (x.numerator * y.numerator) (x.denominator * y.denominator)

/-- The quotient of two doubles, rounded. -/
def div? (x y : Binary64) : Option Binary64 :=
  nearest (x.numerator * y.denominator) (x.denominator * y.numerator)

/-! ## Decimal scaling -/

/-- The largest power of ten that is used as a factor. -/
def greatestPower : Nat := 308

/-- The double nearest to a power of ten. -/
def powerOfTen? (k : Nat) : Option Binary64 := ofNat? (Nat.pow 10 k)

/-- Divides by the largest factor as often as told, stopping at zero. -/
def divGreatest? : (times : Nat) → Binary64 → Option Binary64
  | 0, x => some x
  | times + 1, x =>
    if x.isZero then some x
    else ((powerOfTen? greatestPower).bind (div? x)).bind (divGreatest? times)

/-- Divides by `10 ^ k`, first by the largest factor as long as the power is beyond it. -/
def divPower? (x : Binary64) (k : Nat) : Option Binary64 :=
  let times := (k - 1) / greatestPower
  (divGreatest? times x).bind fun y =>
    if y.isZero then some y else (powerOfTen? (k - times * greatestPower)).bind (div? y)

/-- The double read for `s · 10 ^ e`, or nothing if it is beyond the largest double. -/
def scaled? (s : Nat) (e : Int) : Option Binary64 :=
  if s = 0 then some zero
  else
    match ofNat? s, e with
    | none, _ => none
    | some x, .negSucc k => divPower? x (k + 1)
    | some x, .ofNat k =>
      if greatestPower < k then none else (powerOfTen? k).bind (mul? x)

end Binary64

end ApiAnnotations

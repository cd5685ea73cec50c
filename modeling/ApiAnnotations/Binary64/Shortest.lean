import ApiAnnotations.Binary64
import ApiAnnotations.Text.Decimal

/-! # Shortest decimal texts of doubles

Among the decimals that round to a double, one with the fewest digits is chosen, the nearest of
those, and of two equally near ones the even one.

* `Binary64.shortest x` gives its digits and its power of ten.
* `FloatStyle` says how they are laid out. -/

namespace ApiAnnotations

/-- The decimal `digits · 10 ^ exponent`. -/
structure DecimalFloat where
  digits : Nat
  exponent : Int
deriving DecidableEq

namespace Binary64

/-- A quarter of the distance to the next larger double is the unit in which a double and the ends
of the interval that rounds to it are whole numbers. -/
def quarterExponent (x : Binary64) : Int := x.exponent - 2

def center (x : Binary64) : Nat := 4 * x.significand

/-- The lower end of the interval that rounds to the double, in quarters. Below a power of two the
next double is only half as far away. -/
def lowerEnd (x : Binary64) : Nat :=
  if x.significand = leastNormal ∧ leastExponent < x.exponent then center x - 1 else center x - 2

/-- The upper end of the interval that rounds to the double, in quarters. -/
def upperEnd (x : Binary64) : Nat := center x + 2

/-- Numerator and denominator of one unit of the decimal grid `10 ^ k` in quarters. -/
def gridUnit (x : Binary64) (k : Int) : Nat × Nat :=
  (shifted (Nat.pow 10 k.toNat) (-x.quarterExponent),
    shifted (Nat.pow 10 (-k).toNat) x.quarterExponent)

/-- Whether `n` units of the grid round to the double. The ends belong to the interval of an even
significand. -/
def roundsTo (x : Binary64) (unit : Nat × Nat) (n : Nat) : Bool :=
  let point := n * unit.1
  let low := x.lowerEnd * unit.2
  let high := x.upperEnd * unit.2
  if x.significand % 2 = 0 then low ≤ point && point ≤ high else low < point && point < high

/-- The point of a grid nearest to the double among its two neighbours that round to it. -/
def gridPoint? (x : Binary64) (k : Int) : Option Nat :=
  let unit := x.gridUnit k
  let value := x.center * unit.2
  let below := value / unit.1
  let distBelow := value - below * unit.1
  let distAbove := (below + 1) * unit.1 - value
  match x.roundsTo unit below && below != 0, x.roundsTo unit (below + 1) with
  | true, true =>
    if distBelow < distAbove ∨ (distBelow = distAbove ∧ below % 2 = 0) then some below
    else some (below + 1)
  | true, false => some below
  | false, true => some (below + 1)
  | false, false => none

/-- The first grid from `10 ^ k` downward with a point that rounds to the double. -/
def searchGrid (x : Binary64) : (steps : Nat) → Int → DecimalFloat
  | 0, _ => ⟨0, 0⟩
  | steps + 1, k =>
    match x.gridPoint? k with
    | some n => ⟨n, k⟩
    | none => searchGrid x steps (k - 1)

/-- More decimal places than the smallest double has before its first digit. -/
def manyPlaces : Nat := 330

/-- The number of decimal digits before the point of a double; negative for small ones. -/
def integerDigits (x : Binary64) : Int :=
  let scaled := x.numerator * Nat.pow 10 manyPlaces / x.denominator
  ((Nat.toDigits 10 scaled).length : Int) - manyPlaces

/-- How many grids are tried: seventeen digits always suffice. -/
def gridSteps : Nat := 19

/-- The shortest decimal that rounds to a double other than zero. -/
def shortest (x : Binary64) : DecimalFloat := searchGrid x gridSteps x.integerDigits

end Binary64

/-- How a float is laid out: positional notation is used as long as the point stands after at most
`mostBefore` digits or is followed by fewer than `fewerAfter` zeros, and otherwise an exponent,
which has a sign if it is negative or `plusSign` holds. -/
structure FloatStyle where
  mostBefore : Int
  fewerAfter : Int
  plusSign : Bool
deriving DecidableEq

namespace FloatStyle

open Text.Decimal (ofNat)

def zeros (n : Int) : Text := List.replicate n.toNat '0'

def exponentText (style : FloatStyle) (e : Int) : Text :=
  if e < 0 then '-' :: ofNat e.natAbs
  else if style.plusSign then '+' :: ofNat e.natAbs
  else ofNat e.natAbs

/-- The text of a decimal other than zero. The point stands after `before` digits. -/
def decimalText (style : FloatStyle) (d : DecimalFloat) : Text :=
  let digits := ofNat d.digits
  let before := (digits.length : Int) + d.exponent
  if 0 ≤ d.exponent ∧ before ≤ style.mostBefore then
    digits ++ zeros d.exponent ++ ['.', '0']
  else if 0 < before ∧ before ≤ style.mostBefore then
    digits.take before.toNat ++ ['.'] ++ digits.drop before.toNat
  else if -style.fewerAfter < before ∧ before ≤ 0 then
    ['0', '.'] ++ zeros (-before) ++ digits
  else
    let fraction := digits.drop 1
    digits.take 1 ++ (if fraction.isEmpty then [] else '.' :: fraction) ++ ['e'] ++
      style.exponentText (before - 1)

def text (style : FloatStyle) (negative : Bool) (x : Binary64) : Text :=
  (if negative then ['-'] else []) ++
    if x.isZero then ['0', '.', '0'] else style.decimalText x.shortest

end FloatStyle

end ApiAnnotations

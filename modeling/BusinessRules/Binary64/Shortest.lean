import BusinessRules.Binary64.Basic
import BusinessRules.Decimal.Numeral

/-!
# The shortest decimals of binary numbers

A binary number is written with the fewest decimal digits that still read back as the same
number; of several such decimals the nearest one is taken.  The digits stand positionally, with at
least one digit after the point, if the leading one stands between the powers `-4` and `15` of
ten; otherwise a power of ten of at least two digits follows.

## Main definitions

* `Binary64.shortest`: the digits and their power of ten
* `Binary64.text`: the written form
* `Binary64.toDecimal`: the decimal number that the written form stands for
-/

namespace BusinessRules.Binary64

/- Powers are the plain ones of the natural numbers and the integers. -/
attribute [local instance (2000)] instPowNat

/-- The order of `a · 10 ^ i` and `n · 2 ^ j`. -/
def compareScaled (a : Nat) (i : Int) (n : Nat) (j : Int) : Ordering :=
  Ord.compare (a * 10 ^ i.toNat * 2 ^ (-j).toNat) (n * 2 ^ j.toNat * 10 ^ (-i).toNat)

/-- Whether the decimal `d · 10 ^ k` lies among the numbers that round to `m · 2 ^ e`: within half
a gap to the neighbours, the ends included for an even mantissa.  Just above a power of two the
gap below is half as wide. -/
def readsBack (m : Nat) (e : Int) (d : Nat) (k : Int) : Bool :=
  let narrow := m == 2 ^ (precision - 1) && minExponent < e
  let low := compareScaled d k (if narrow then 4 * m - 1 else 4 * m - 2) (e - 2)
  let high := compareScaled d k (4 * m + 2) (e - 2)
  let even := m % 2 == 0
  (low == .gt || (even && low == .eq)) && (high == .lt || (even && high == .eq))

/-- The largest multiple of `10 ^ k` at or below `m · 2 ^ e`, as a multiplier. -/
def gridFloor (m : Nat) (e k : Int) : Nat :=
  (m * 2 ^ e.toNat * 10 ^ (-k).toNat) / (2 ^ (-e).toNat * 10 ^ k.toNat)

/-- The neighbour of `m · 2 ^ e` among the multiples of `10 ^ k` that reads back, the nearer one if
both do and the even one if both are as near. -/
def onGrid? (m : Nat) (e k : Int) : Option Nat :=
  let lower := gridFloor m e k
  let upper := lower + 1
  match readsBack m e lower k, readsBack m e upper k with
  | true, true =>
    match compareScaled (lower + upper) k (2 * m) e with
    | .gt => some lower
    | .lt => some upper
    | .eq => some (if lower % 2 = 0 then lower else upper)
  | true, false => some lower
  | false, true => some upper
  | false, false => none

/-- So many digits after the point show the leading digit of every binary number. -/
def leadingPlaces : Nat := 400

/-- The power of ten just above a positive `m · 2 ^ e`. -/
def scale (m : Nat) (e : Int) : Int :=
  let n := m * 2 ^ e.toNat * 10 ^ leadingPlaces
  (digitCount (n / 2 ^ (-e).toNat) : Int) - leadingPlaces

/-- The fewest digits that read back as a positive `m · 2 ^ e`, without trailing zeros, and their
power of ten.  Seventeen digits are always enough. -/
def shortest (m : Nat) (e : Int) : Nat × Int :=
  let top := scale m e
  let hit := (List.range 17).findSome? fun (n : Nat) =>
    (onGrid? m e (top - (n + 1))).map fun d => (d, top - (n + 1))
  let (d, k) := hit.getD (m * 2 ^ e.toNat * 5 ^ (-e).toNat, min e 0)
  let (d, zeros) := Decimal.stripZeros 17 d
  (d, k + zeros)

/-- Whether digits whose leading one stands at a power of ten are written positionally. -/
def isPositional (lead : Int) : Bool := -4 ≤ lead && lead < 16

/-- The decimal number that the written form of a binary number stands for. -/
def toDecimal : Binary64 → Decimal
  | .infinite negative => .infinite negative
  | .undefined => .undefined false false 0
  | .finite negative m e =>
    if m = 0 then .finite negative 0 (-1)
    else
      let (d, k) := shortest m e
      if isPositional (Decimal.adjusted d k) && 0 ≤ k then
        .finite negative (d * 10 ^ (k.toNat + 1)) (-1)
      else .finite negative d k

/-- The power of ten that ends a written number: a sign and at least two digits. -/
def powerText (n : Int) : List Char :=
  let ds := Decimal.digits n.natAbs
  'e' :: (if n < 0 then '-' else '+') :: List.replicate (2 - ds.length) '0' ++ ds

/-- The written form of a binary number. -/
def text (x : Binary64) : List Char :=
  match x.toDecimal with
  | .infinite negative => Decimal.signed negative ['i', 'n', 'f']
  | .undefined .. => ['n', 'a', 'n']
  | .finite negative c e =>
    let lead := Decimal.adjusted c e
    Decimal.signed negative <|
      if c = 0 || isPositional lead then Decimal.pointed c (-e).toNat
      else Decimal.pointed c (digitCount c - 1) ++ powerText lead

end BusinessRules.Binary64

import BusinessRules.Decimal.Arithmetic

/-!
# Binary floating-point numbers

Facts and documents may hold binary numbers of 64 bits.  They are kept as exact values: a sign, a
mantissa below `2 ^ 53` and a power of two.

## Main definitions

* `Binary64`: the numbers
* `Binary64.ofDecimal`: the nearest binary number to a decimal one, a half going to the even
  mantissa
* `Binary64.toInt?`: the whole number that a binary one is equal to
-/

namespace BusinessRules

/- Powers are the plain ones of the natural numbers and the integers. -/
attribute [local instance (2000)] instPowNat

/-- A binary number `± mantissa · 2 ^ exponent`, or one that is not finite. -/
inductive Binary64 where
  | finite (negative : Bool) (mantissa : Nat) (exponent : Int)
  | infinite (negative : Bool)
  | undefined
  deriving DecidableEq, Repr, Inhabited

namespace Binary64

/-- The number of binary digits of a mantissa. -/
def precision : Nat := 53

/-- The smallest power of two. -/
def minExponent : Int := -1074

/-- The largest power of two. -/
def maxExponent : Int := 971

/-- The power of two at or below a positive quotient. -/
def floorLog (num den : Nat) : Int :=
  let l : Int := (num.log2 : Int) - den.log2
  if den * 2 ^ l.toNat ≤ num * 2 ^ (-l).toNat then l else l - 1

/-- The nearest binary number to a positive quotient. -/
def ofRatio (negative : Bool) (num den : Nat) : Binary64 :=
  let e := max (floorLog num den - (precision - 1)) minExponent
  let m := roundHalfEven (num * 2 ^ (-e).toNat) (den * 2 ^ e.toNat)
  let (m, e) := if m = 2 ^ precision then (2 ^ (precision - 1), e + 1) else (m, e)
  if maxExponent < e then .infinite negative else .finite negative m e

/-- The nearest binary number to a decimal one. -/
def ofDecimal : Decimal → Binary64
  | .infinite negative => .infinite negative
  | .undefined .. => .undefined
  | .finite negative c e =>
    if c = 0 || Decimal.adjusted c e < -330 then .finite negative 0 minExponent
    else if 310 < Decimal.adjusted c e then .infinite negative
    else ofRatio negative (c * 10 ^ e.toNat) (10 ^ (-e).toNat)

/-- Whether a number is zero, with either sign. -/
def isZero : Binary64 → Bool
  | .finite _ m _ => m == 0
  | _ => false

/-- The whole number that a binary number is equal to. -/
def toInt? : Binary64 → Option Int
  | .finite negative m e =>
    let sign (n : Nat) : Int := Decimal.toSigned negative n
    if 0 ≤ e then some (sign (m * 2 ^ e.toNat))
    else if m % 2 ^ (-e).toNat = 0 then some (sign (m / 2 ^ (-e).toNat))
    else none
  | _ => none

end Binary64

end BusinessRules

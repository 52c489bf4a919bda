import BusinessRules.Decimal.Basic
import BusinessRules.Text.Blank
import BusinessRules.Text.Digit

/-!
# Numerals

A numeral is the written form of a finite number: an optional sign, digits with at most one point
among or around them, and an optional power of ten.  Reading one is exact; only powers of ten
beyond any representable number are refused.  The texts that go back out come in two notations, a
plain one without a power of ten and a scientific one that uses it for very large and very small
numbers.

## Main definitions

* `Numeral`, `Numeral.read?`: the written form and its reader
* `Numeral.toDecimal?`: the number that a numeral stands for
* `Decimal.plain`: the notation without a power of ten
* `Decimal.scientific`: the notation that keeps coefficient and exponent apart
* `Decimal.ofText?`: the reader for all decimals, infinite and undefined ones included
-/

namespace BusinessRules

/-- A finite number as it is written, `± coefficient · 10 ^ exponent`. -/
structure Numeral where
  negative : Bool
  coefficient : Nat
  exponent : Int
  deriving DecidableEq, Repr

namespace Numeral

/-- A leading sign, true for a minus, and what follows it. -/
def takeSign : List Char → Bool × List Char
  | '+' :: cs => (false, cs)
  | '-' :: cs => (true, cs)
  | cs => (false, cs)

/-- A mantissa: its digits before and after the point, and what follows it. -/
def takeMantissa? (cs : List Char) : Option (List Char × List Char × List Char) :=
  let whole := cs.takeWhile Text.isDigit
  match cs.dropWhile Text.isDigit with
  | '.' :: rest =>
    let fraction := rest.takeWhile Text.isDigit
    if whole.isEmpty && fraction.isEmpty then none
    else some (whole, fraction, rest.dropWhile Text.isDigit)
  | rest => if whole.isEmpty then none else some (whole, [], rest)

/-- The power of ten that ends a numeral: nothing, or a mark, an optional sign and digits. -/
def takePower? : List Char → Option Int
  | [] => some 0
  | c :: cs =>
    if c = 'e' || c = 'E' then
      let (negative, digits) := takeSign cs
      if digits.isEmpty || !digits.all Text.isDigit then none
      else
        let n : Int := Text.digitsValue digits
        some (if negative then -n else n)
    else none

/-- Read a whole text as a numeral. -/
def read? (cs : List Char) : Option Numeral :=
  let (negative, body) := takeSign cs
  (takeMantissa? body).bind fun (whole, fraction, rest) =>
    (takePower? rest).map fun power =>
      ⟨negative, Text.digitsValue (whole ++ fraction), power - fraction.length⟩

/-- The largest power of ten that a leading digit may stand at. -/
def maxAdjusted : Int := 999999999999999999

/-- The smallest power of ten that a last digit may stand at. -/
def minExponent : Int := -1999999999999999997

/-- The number that a numeral stands for, unless its power of ten is out of all bounds. -/
def toDecimal? (n : Numeral) : Option Decimal :=
  if minExponent ≤ n.exponent && Decimal.adjusted n.coefficient n.exponent ≤ maxAdjusted then
    some (.finite n.negative n.coefficient n.exponent)
  else none

end Numeral

namespace Decimal

/-- The decimal digits of a natural number. -/
def digits (n : Nat) : List Char := Nat.toDigits 10 n

/-- A sign in front of a number. -/
def signed (negative : Bool) (cs : List Char) : List Char :=
  if negative then '-' :: cs else cs

/-- The digits of a coefficient with a point in front of the last `places` of them. -/
def pointed (coefficient places : Nat) : List Char :=
  let ds := digits coefficient
  if places = 0 then ds
  else if places < ds.length then
    ds.take (ds.length - places) ++ '.' :: ds.drop (ds.length - places)
  else '0' :: '.' :: List.replicate (places - ds.length) '0' ++ ds

/-- The spelling of a number that is undefined. -/
def undefinedText (signaling : Bool) (payload : Nat) : List Char :=
  (if signaling then ['s'] else []) ++ ['N', 'a', 'N'] ++
    (if payload = 0 then [] else digits payload)

/-- The spelling of the infinite number. -/
def infinityText : List Char := ['I', 'n', 'f', 'i', 'n', 'i', 't', 'y']

/-- The text of a number without a power of ten. -/
def plain : Decimal → List Char
  | .finite negative c e =>
    signed negative <|
      if 0 ≤ e then
        if c = 0 then ['0'] else digits c ++ List.replicate e.toNat '0'
      else pointed c (-e).toNat
  | .infinite negative => signed negative infinityText
  | .undefined negative signaling payload => signed negative (undefinedText signaling payload)

/-- The power of ten that ends a scientific text, always with a sign. -/
def powerText (n : Int) : List Char :=
  'E' :: (if n < 0 then '-' else '+') :: digits n.natAbs

/-- The text of a number that keeps coefficient and exponent apart.  A power of ten is written
only if the exponent is positive or the leading digit is below the sixth place. -/
def scientific : Decimal → List Char
  | .finite negative c e =>
    signed negative <|
      if e ≤ 0 && -6 ≤ adjusted c e then pointed c (-e).toNat
      else pointed c (digitCount c - 1) ++ powerText (adjusted c e)
  | .infinite negative => signed negative infinityText
  | .undefined negative signaling payload => signed negative (undefinedText signaling payload)

/-- Read the name of an infinite or undefined number, in any case. -/
def special? (negative : Bool) (cs : List Char) : Option Decimal :=
  let name := String.ofList (cs.map Char.toLower)
  if name = "inf" || name = "infinity" then some (.infinite negative)
  else
    let word := String.ofList ((cs.takeWhile (!Text.isDigit ·)).map Char.toLower)
    let payload := cs.dropWhile (!Text.isDigit ·)
    if !payload.all Text.isDigit then none
    else if word = "nan" then some (.undefined negative false (Text.digitsValue payload))
    else if word = "snan" then some (.undefined negative true (Text.digitsValue payload))
    else none

/-- Read any decimal: a numeral or the name of an infinite or undefined number, with blanks
around it and underscores anywhere ignored. -/
def ofText? (s : String) : Option Decimal :=
  let cs := (Text.trim s.toList).filter (· != '_')
  match Numeral.read? cs with
  | some n => n.toDecimal?
  | none =>
    let (negative, body) := Numeral.takeSign cs
    special? negative body

end Decimal

end BusinessRules

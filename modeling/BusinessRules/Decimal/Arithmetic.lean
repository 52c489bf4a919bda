import BusinessRules.Decimal.Order

/-!
# Rounded decimal arithmetic

Every operation computes the exact result and rounds it once, to the configured number of digits,
a half going to the even neighbour.  Results are limited to leading digits between the powers
`-999999` and `999999` of ten: above that range an operation overflows, below it digits are lost
until nothing is left.

## Main definitions

* `Precision`: the number of significant digits of every result
* `Decimal.round`: the rounding step
* `Decimal.add`, `Decimal.sub`, `Decimal.mul`, `Decimal.div`, `Decimal.neg`: the operations

## Main statements

* `stripZeros_mul`: removing trailing zeros keeps the value
-/

namespace BusinessRules

/- Powers are the plain ones of the natural numbers and the integers. -/
attribute [local instance (2000)] instPowNat

/-- The largest number of significant digits that can be asked for. -/
def maxPrecision : Nat := 999999999999999999

/-- A number of significant digits. -/
structure Precision where
  digits : Nat
  positive : 1 ≤ digits
  bounded : digits ≤ maxPrecision
  deriving DecidableEq, Repr

/-- A precision, if the number lies in the permitted range. -/
def Precision.ofInt? (n : Int) : Option Precision :=
  if h : 1 ≤ n.toNat ∧ n.toNat ≤ maxPrecision then some ⟨n.toNat, h.1, h.2⟩ else none

/-- The quotient rounded to the nearest natural number, a half going to the even neighbour. -/
def roundHalfEven (c d : Nat) : Nat :=
  let q := c / d
  let r := c % d
  if 2 * r < d then q else if d < 2 * r then q + 1 else q + q % 2

namespace Decimal

/-- The largest power of ten at which a result may have its leading digit. -/
def maxExponent : Int := 999999

/-- The smallest power of ten at which a result may have its leading digit and all its digits. -/
def minExponent : Int := -999999

/-- The smallest exponent of a result. -/
def leastExponent (p : Precision) : Int := minExponent - (p.digits - 1)

/-- A coefficient without its last digits, rounded.  A coefficient that is shorter than what goes
away leaves nothing. -/
def dropDigits (c places : Nat) : Nat :=
  if digitCount c < places then 0 else roundHalfEven c (10 ^ places)

/-- The number of last digits of `c · 10 ^ e` that a result cannot hold. -/
def excess (p : Precision) (c : Nat) (e : Int) : Nat :=
  (max ((digitCount c : Int) - p.digits) (leastExponent p - e)).toNat

/-- The rounding step: `± c · 10 ^ e` with no more digits than the precision allows. -/
def round (p : Precision) (negative : Bool) (c : Nat) (e : Int) : Except ArithmeticFault Decimal :=
  if c = 0 then .ok (.finite negative 0 (max (leastExponent p) (min e maxExponent)))
  else
    let places := excess p c e
    let kept := if places = 0 then c else dropDigits c places
    let exponent := e + places
    if maxExponent < adjusted kept exponent then .error .overflow
    else if p.digits < digitCount kept then .ok (.finite negative (kept / 10) (exponent + 1))
    else .ok (.finite negative kept exponent)

/-- An undefined operand becomes the result, its payload cut to the precision, unless it is marked
to fail. -/
def propagate (p : Precision) (negative signaling : Bool) (payload : Nat) :
    Except ArithmeticFault Decimal :=
  if signaling then .error .invalidOperation
  else
    let kept := if p.digits < digitCount payload then payload % 10 ^ p.digits else payload
    .ok (.undefined negative false kept)

/-- The undefined result of two operands at least one of which is undefined: one that is marked to
fail fails, else the left one is passed on if it is undefined, else the right one. -/
def propagate₂? (p : Precision) : Decimal → Decimal → Option (Except ArithmeticFault Decimal)
  | .undefined n s d, .undefined _ s' _ => some (propagate p n (s || s') d)
  | .undefined n s d, _ => some (propagate p n s d)
  | _, .undefined n s d => some (propagate p n s d)
  | _, _ => none

/-- A sign and a coefficient as one whole number. -/
def toSigned (negative : Bool) (c : Nat) : Int := if negative then -(c : Int) else c

/-- A stand-in for a summand that is far below the last digit of the other one.  Only its being
there can matter to the rounding, so it is replaced by one unit at a place just below all digits
of the result. -/
def nudge (p : Precision) (c : Nat) (e : Int) (small : Nat) (smallExp : Int) : Nat × Int :=
  let limit := e - 1 + (if p.digits < digitCount c then 0 else (digitCount c : Int) - p.digits - 1)
  if c ≠ 0 && adjusted small smallExp < limit then (if small = 0 then 0 else 1, limit)
  else (small, smallExp)

/-- The exact sum of two finite numbers, the first one with the larger exponent, rounded. -/
def addAligned (p : Precision) (n₁ : Bool) (c₁ : Nat) (e₁ : Int) (n₂ : Bool) (c₂ : Nat) (e₂ : Int) :
    Except ArithmeticFault Decimal :=
  let (small, e) := nudge p c₁ e₁ c₂ e₂
  let sum := toSigned n₁ (shifted c₁ (e₁ - e).toNat) + toSigned n₂ small
  round p (if sum = 0 then n₁ && n₂ else sum < 0) sum.natAbs e

/-- The sum of two finite numbers. -/
def addFinite (p : Precision) (n₁ : Bool) (c₁ : Nat) (e₁ : Int) (n₂ : Bool) (c₂ : Nat) (e₂ : Int) :
    Except ArithmeticFault Decimal :=
  if e₂ ≤ e₁ then addAligned p n₁ c₁ e₁ n₂ c₂ e₂ else addAligned p n₂ c₂ e₂ n₁ c₁ e₁

/-- The sum of two numbers.  Infinities of opposite sign have none. -/
def add (p : Precision) (x y : Decimal) : Except ArithmeticFault Decimal :=
  match propagate₂? p x y with
  | some result => result
  | none =>
    match x, y with
    | .finite n₁ c₁ e₁, .finite n₂ c₂ e₂ => addFinite p n₁ c₁ e₁ n₂ c₂ e₂
    | .infinite n₁, .infinite n₂ => if n₁ = n₂ then .ok x else .error .invalidOperation
    | .infinite _, _ => .ok x
    | _, _ => .ok y

/-- The number with the opposite sign, exactly; an undefined number keeps its sign. -/
def flip : Decimal → Decimal
  | .finite n c e => .finite (!n) c e
  | .infinite n => .infinite (!n)
  | x => x

/-- The difference of two numbers. -/
def sub (p : Precision) (x y : Decimal) : Except ArithmeticFault Decimal := add p x (flip y)

/-- The product of two numbers.  Zero times infinity has none. -/
def mul (p : Precision) (x y : Decimal) : Except ArithmeticFault Decimal :=
  match propagate₂? p x y with
  | some result => result
  | none =>
    match x, y with
    | .finite n₁ c₁ e₁, .finite n₂ c₂ e₂ => round p (n₁ != n₂) (c₁ * c₂) (e₁ + e₂)
    | .infinite n₁, .infinite n₂ => .ok (.infinite (n₁ != n₂))
    | .infinite n₁, .finite n₂ c _ | .finite n₁ c _, .infinite n₂ =>
      if c = 0 then .error .invalidOperation else .ok (.infinite (n₁ != n₂))
    | _, _ => .error .invalidOperation

/-- Remove trailing zeros of a coefficient in blocks, each half as long as the one before it, at
most as many as given. -/
def stripBlocks : Nat → Nat → Nat → Nat × Nat
  | 0, _, c => (c, 0)
  | k + 1, most, c =>
    let block := 2 ^ k
    if block ≤ most && c % 10 ^ block = 0 then
      let (stripped, n) := stripBlocks k (most - block) (c / 10 ^ block)
      (stripped, n + block)
    else stripBlocks k most c

/-- Remove trailing zeros of a coefficient, at most as many as given. -/
def stripZeros (most c : Nat) : Nat × Nat := stripBlocks (most.log2 + 1) most c

/-- Blocks of zeros are removed and counted. -/
theorem stripBlocks_mul (k most c : Nat) :
    (stripBlocks k most c).1 * 10 ^ (stripBlocks k most c).2 = c ∧
      (stripBlocks k most c).2 ≤ most := by
  induction k generalizing most c with
  | zero => simp [stripBlocks]
  | succ k ih =>
    unfold stripBlocks
    simp only
    split
    · rename_i h
      simp only [Bool.and_eq_true, decide_eq_true_eq] at h
      obtain ⟨hc, hn⟩ := ih (most - 2 ^ k) (c / 10 ^ 2 ^ k)
      refine ⟨?_, by simp only; omega⟩
      rw [Nat.pow_add, ← Nat.mul_assoc, hc, Nat.div_mul_cancel (Nat.dvd_of_mod_eq_zero h.2)]
    · exact ih most c

/-- Removing zeros keeps the value, and no more are removed than asked for. -/
theorem stripZeros_mul (most c : Nat) :
    (stripZeros most c).1 * 10 ^ (stripZeros most c).2 = c ∧ (stripZeros most c).2 ≤ most :=
  stripBlocks_mul _ most c

/-- The quotient of two finite numbers with nonzero coefficients.  An exact quotient is brought as
near as possible to the difference of the exponents; an inexact one keeps one digit more than the
precision, made odd or moved off a half so that the rounding sees that more digits follow. -/
def divFinite (p : Precision) (negative : Bool) (c₁ : Nat) (e₁ : Int) (c₂ : Nat) (e₂ : Int) :
    Except ArithmeticFault Decimal :=
  let shift : Int := (digitCount c₂ : Int) - digitCount c₁ + p.digits + 1
  let num := c₁ * 10 ^ shift.toNat
  let den := c₂ * 10 ^ (-shift).toNat
  let q := num / den
  if num % den = 0 then
    let (stripped, n) := stripZeros shift.toNat q
    round p negative stripped (e₁ - e₂ - shift + n)
  else round p negative (if q % 5 = 0 then q + 1 else q) (e₁ - e₂ - shift)

/-- The number of digits that a quotient can be carried to. -/
def maxQuotientDigits : Nat := 10000000000

/-- The quotient of two finite numbers with nonzero coefficients at a precision to which no
quotient can be carried: only one that is exact and not too small has a result. -/
def divExact (p : Precision) (negative : Bool) (c₁ : Nat) (e₁ : Int) (c₂ : Nat) (e₂ : Int) :
    Except ArithmeticFault Decimal :=
  let shift := 5 * digitCount c₂ + 1
  let num := c₁ * 10 ^ shift
  if num % c₂ ≠ 0 then .error .tooLong
  else
    let (stripped, n) := stripZeros shift (num / c₂)
    let exponent := e₁ - e₂ - shift + n
    let top := adjusted stripped exponent
    if minExponent ≤ top && top ≤ maxExponent then round p negative stripped exponent
    else .error .tooLong

/-- The quotient of two numbers.  A zero divisor and a quotient of infinities have none. -/
def div (p : Precision) (x y : Decimal) : Except ArithmeticFault Decimal :=
  match propagate₂? p x y with
  | some result => result
  | none =>
    match x, y with
    | .finite n₁ c₁ e₁, .finite n₂ c₂ e₂ =>
      if c₂ = 0 then .error .invalidOperation
      else if c₁ = 0 then round p (n₁ != n₂) 0 (e₁ - e₂)
      else if maxQuotientDigits < p.digits then divExact p (n₁ != n₂) c₁ e₁ c₂ e₂
      else divFinite p (n₁ != n₂) c₁ e₁ c₂ e₂
    | .infinite n₁, .finite n₂ _ _ => .ok (.infinite (n₁ != n₂))
    | .finite n₁ _ _, .infinite n₂ => .ok (.finite (n₁ != n₂) 0 (leastExponent p))
    | _, _ => .error .invalidOperation

/-- The negation of a number, rounded.  A zero becomes positive. -/
def neg (p : Precision) : Decimal → Except ArithmeticFault Decimal
  | .finite n c e => round p (c != 0 && !n) c e
  | .infinite n => .ok (.infinite (!n))
  | .undefined n s d => propagate p n s d

end Decimal

end BusinessRules

import BusinessRules.Decimal.Basic

/-!
# Exact comparison of decimals

Comparison never rounds.  Finite numbers are compared through their leading digits first, so two
numbers of very different size are told apart without writing either of them out.  Undefined
numbers have no place in the order, and asking for one is a fault.

## Main definitions

* `Decimal.compare`: the order of two numbers
* `Decimal.equalsZero`: whether a number is zero
-/

namespace BusinessRules.Decimal

/- Powers are the plain ones of the natural numbers and the integers. -/
attribute [local instance (2000)] instPowNat

/-- A coefficient with zeros appended; zero stays as it is. -/
def shifted (coefficient places : Nat) : Nat :=
  if coefficient = 0 then 0 else coefficient * 10 ^ places

/-- The order of two magnitudes `c · 10 ^ e`. -/
def compareMagnitude (c₁ : Nat) (e₁ : Int) (c₂ : Nat) (e₂ : Int) : Ordering :=
  if c₁ = 0 || c₂ = 0 then Ord.compare c₁ c₂
  else if adjusted c₁ e₁ ≠ adjusted c₂ e₂ then Ord.compare (adjusted c₁ e₁) (adjusted c₂ e₂)
  else Ord.compare (shifted c₁ (e₁ - e₂).toNat) (shifted c₂ (e₂ - e₁).toNat)

/-- The order of two finite numbers. -/
def compareFinite (n₁ : Bool) (c₁ : Nat) (e₁ : Int) (n₂ : Bool) (c₂ : Nat) (e₂ : Int) : Ordering :=
  match n₁ && c₁ != 0, n₂ && c₂ != 0 with
  | false, false => compareMagnitude c₁ e₁ c₂ e₂
  | false, true => .gt
  | true, false => .lt
  | true, true => compareMagnitude c₂ e₂ c₁ e₁

/-- The order of two numbers; an undefined number has none. -/
def compare : Decimal → Decimal → Except ArithmeticFault Ordering
  | .undefined .., _ => .error .invalidOperation
  | _, .undefined .. => .error .invalidOperation
  | .finite n₁ c₁ e₁, .finite n₂ c₂ e₂ => .ok (compareFinite n₁ c₁ e₁ n₂ c₂ e₂)
  | .finite .., .infinite negative => .ok (if negative then .gt else .lt)
  | .infinite negative, .finite .. => .ok (if negative then .lt else .gt)
  | .infinite n₁, .infinite n₂ => .ok (Ord.compare n₂ n₁)

/-- Whether a number is zero.  Only an undefined number that is marked to fail cannot answer. -/
def equalsZero : Decimal → Except ArithmeticFault Bool
  | .finite _ c _ => .ok (c == 0)
  | .infinite _ => .ok false
  | .undefined _ signaling _ => if signaling then .error .invalidOperation else .ok false

end BusinessRules.Decimal

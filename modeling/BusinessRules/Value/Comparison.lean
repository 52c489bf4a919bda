import BusinessRules.Text.CodePoint
import BusinessRules.Value.Basic

/-!
# Comparison of values

Null is below everything else.  Values of one kind are compared in that kind's own order, texts by
code points, collections element by element and then by length; values of two kinds are compared
through their numbers.  Two undefined numbers, or an undefined number and another value, have no
order.

## Main definitions

* `Value.compare`: the order of two values
* `Comparison`: the six comparison operators
* `Value.compareWith`: whether a comparison holds between two values
-/

namespace BusinessRules

namespace Value

/-- The order of two numbers. -/
def compareNumbers (x y : Decimal) : Outcome Ordering :=
  match x.compare y with
  | .ok o => .ok o
  | .error f => .error (.arithmetic f)

/-- The order of two texts: that of the first code points that differ, else that of the lengths. -/
def compareTexts (s t : String) : Ordering :=
  Ord.compare (Text.codePoints s.toList) (Text.codePoints t.toList)

mutual

/-- The order of two values. -/
def compare : Value → Value → Outcome Ordering
  | .null, .null => .ok .eq
  | .null, _ => .ok .lt
  | _, .null => .ok .gt
  | .bool a, .bool b => .ok (Ord.compare a b)
  | .text a, .text b => .ok (compareTexts a b)
  | .list xs, .list ys => compareLists xs ys
  | v, w => compareNumbers v.toNumber w.toNumber

/-- The order of two collections: that of the first elements that differ, else that of the
lengths. -/
def compareLists : List Value → List Value → Outcome Ordering
  | [], [] => .ok .eq
  | [], _ :: _ => .ok .lt
  | _ :: _, [] => .ok .gt
  | x :: xs, y :: ys =>
    match compare x y with
    | .ok .eq => compareLists xs ys
    | other => other

end

end Value

/-- The comparison operators. -/
inductive Comparison where
  | gt
  | ge
  | lt
  | le
  | eq
  | ne
  deriving DecidableEq, Repr

namespace Comparison

/-- All comparison operators, those of two characters before the ones that they begin with. -/
def all : List Comparison := [.ge, .le, .eq, .ne, .gt, .lt]

/-- How an operator is written. -/
def symbol : Comparison → String
  | .gt => ">"
  | .ge => ">="
  | .lt => "<"
  | .le => "<="
  | .eq => "=="
  | .ne => "!="

/-- The operator that a text spells. -/
def ofSymbol? (s : String) : Option Comparison := all.find? fun op => op.symbol = s

/-- Whether a comparison holds of two values in the given order. -/
def holds : Comparison → Ordering → Bool
  | .gt, o => o.isGT
  | .ge, o => o.isGE
  | .lt, o => o.isLT
  | .le, o => o.isLE
  | .eq, o => o.isEq
  | .ne, o => o.isNe

end Comparison

namespace Value

/-- Whether a comparison holds between two values. -/
def compareWith (op : Comparison) (v w : Value) : Outcome Bool := (v.compare w).map op.holds

end Value

end BusinessRules

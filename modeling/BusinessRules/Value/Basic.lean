import BusinessRules.Decimal.Numeral
import BusinessRules.Decimal.Order
import BusinessRules.Fault

/-!
# Values

Whatever an expression computes is of one of five kinds: a number, a truth value, a text, the null
value, or a collection of values.

## Main definitions

* `Value`: the values
* `Kind`, `Value.kind`: the five kinds
* `Value.toNumber`: the number that arithmetic takes a value for
* `Value.isTrue`: the truth of a value that stands alone as a condition
-/

namespace BusinessRules

/-- A value of the expression language. -/
inductive Value where
  | null
  | bool (b : Bool)
  | number (n : Decimal)
  | text (s : String)
  | list (items : List Value)
  deriving Repr, BEq, Inhabited

/-- The kinds of values. -/
inductive Kind where
  | null
  | boolean
  | number
  | text
  | collection
  deriving DecidableEq, Repr

/-- The name of a kind. -/
def Kind.name : Kind → String
  | .null => "null"
  | .boolean => "boolean"
  | .number => "number"
  | .text => "string"
  | .collection => "collection"

namespace Value

/-- The kind of a value. -/
def kind : Value → Kind
  | .null => .null
  | .bool _ => .boolean
  | .number _ => .number
  | .text _ => .text
  | .list _ => .collection

/-- The number that a text spells, zero if it spells none. -/
def numberOfText (s : String) : Decimal :=
  ((Numeral.read? (Text.trim s.toList)).bind Numeral.toDecimal?).getD .zero

/-- The number that arithmetic and comparison between kinds take a value for.  Only numbers and
texts that spell one count. -/
def toNumber : Value → Decimal
  | .number n => n
  | .text s => numberOfText s
  | _ => .zero

/-- The truth of a value: a truth value itself, else whether its number is not zero. -/
def isTrue : Value → Outcome Bool
  | .bool b => .ok b
  | v =>
    match v.toNumber.equalsZero with
    | .ok zero => .ok (!zero)
    | .error f => .error (.arithmetic f)

end Value

end BusinessRules

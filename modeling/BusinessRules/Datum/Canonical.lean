import BusinessRules.Datum.Lookup
import BusinessRules.Value.Comparison

/-!
# Canonical form of data

An expression sees each datum as a value: every kind of number as a decimal, every collection as a
list, and whatever has no kind of its own as the text that shows it.  A datum that holds a number
with too many digits, and would be seen as a text, cannot be shown and so has no value.

## Main definitions

* `Datum.toValue`: the value that an expression sees
* `Value.toDatum`: the datum that stores a value
* `Datum.kind`: the kind of a datum that is canonical already
* `Datum.compare`, `Datum.compareWith`: comparison through values
* `Datum.compareBy`: comparison by whatever operator a datum names

## Main statements

* `toValue_toDatum`: storing a value and reading it again changes nothing
-/

namespace BusinessRules

namespace Value

mutual

/-- The datum that stores a value. -/
def toDatum : Value → Datum
  | .null => .null
  | .bool b => .bool b
  | .number n => .decimal n
  | .text s => .text s
  | .list items => .list (toData items)

/-- The data that store the items of a collection. -/
def toData : List Value → List Datum
  | [] => []
  | v :: vs => toDatum v :: toData vs

end

end Value

namespace Datum

mutual

/-- The value that an expression sees in a datum. -/
def toValue : Datum → Outcome Value
  | .null => .ok .null
  | .bool b => .ok (.bool b)
  | .int n => .ok (.number (.ofInt n))
  | .decimal n => .ok (.number n)
  | .float x => .ok (.number x.toDecimal)
  | .text s => .ok (.text s)
  | .list items | .tuple items | .set items => (toValues items).map .list
  | d => (d.display .unbounded).map .text

/-- The values that an expression sees in the items of a collection. -/
def toValues : List Datum → Outcome (List Value)
  | [] => .ok []
  | d :: ds => do
    let v ← toValue d
    let vs ← toValues ds
    return v :: vs

end

/-- The kind of a datum that is canonical already; others are a fault. -/
def kind : Datum → Outcome Kind
  | .null => .ok .null
  | .bool _ => .ok .boolean
  | .int _ | .decimal _ | .float _ => .ok .number
  | .text _ => .ok .text
  | .list _ => .ok .collection
  | d => .error (.showing .notCanonical (d.shown .unbounded))

/-- The order of two data, through their values. -/
def compare (a b : Datum) : Outcome Ordering := do
  let x ← a.toValue
  let y ← b.toValue
  x.compare y

/-- Whether a comparison holds between two data, through their values. -/
def compareWith (op : Comparison) (a b : Datum) : Outcome Bool := do
  let x ← a.toValue
  let y ← b.toValue
  Value.compareWith op x y

theorem compare_of_values {a b : Datum} {v w : Value} (ha : a.toValue = .ok v)
    (hb : b.toValue = .ok w) : a.compare b = v.compare w := by
  rw [compare, ha, hb]
  rfl

theorem compareWith_of_values {a b : Datum} {v w : Value} (op : Comparison)
    (ha : a.toValue = .ok v) (hb : b.toValue = .ok w) :
    a.compareWith op b = Value.compareWith op v w := by
  rw [compareWith, ha, hb]
  rfl

/-- The operator that a datum names, a text that spells one. -/
def comparison? : Datum → Option Comparison
  | .text s => Comparison.ofSymbol? s
  | _ => none

/-- Whether the comparison that a datum names holds between two data.  The operator is looked up
before the data are compared. -/
def compareBy (operator a b : Datum) : Outcome Bool :=
  match operator.lookupFault?, operator.comparison? with
  | some f, _ => .error f
  | none, some op => compareWith op a b
  | none, none => .error (.showing .unknownComparison (operator.display .unbounded))

mutual

/-- Storing a value and reading it again changes nothing. -/
theorem toValue_toDatum : (v : Value) → v.toDatum.toValue = .ok v
  | .null | .bool _ | .number _ | .text _ => by simp [Value.toDatum, toValue]
  | .list items => by simp [Value.toDatum, toValue, toValues_toData items, Except.map]

theorem toValues_toData : (vs : List Value) → toValues (Value.toData vs) = .ok vs
  | [] => by simp [Value.toData, toValues]
  | v :: vs => by
    simp [Value.toData, toValues, toValue_toDatum v, toValues_toData vs, bind, Except.bind, pure,
      Except.pure]

end

end Datum

end BusinessRules

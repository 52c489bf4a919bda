import BusinessRules.Datum.Basic
import BusinessRules.Decimal.Order

/-!
# Entries of mappings

A mapping that is read from text keeps one entry per key, in the order in which the keys came in;
of several values for a key the last one counts.

## Main definitions

* `Datum.sameKey`: whether two data are the same key
* `Datum.putEntry`, `Datum.ofEntries`: building a mapping
-/

namespace BusinessRules.Datum

/- Powers are the plain ones of the natural numbers and the integers. -/
attribute [local instance (2000)] instPowNat

/-- The number that a key is equal to, if it is numeric. -/
def keyNumber? : Datum → Option Decimal
  | .bool b => some (.ofInt (if b then 1 else 0))
  | .int n => some (.ofInt n)
  | .decimal n => some n
  | .float x =>
    match x with
    | .finite negative m e =>
      some (if 0 ≤ e then .finite negative (m * 2 ^ e.toNat) 0
        else .finite negative (m * 5 ^ (-e).toNat) e)
    | .infinite negative => some (.infinite negative)
    | .undefined => none
  | _ => none

mutual

/-- Whether two data are the same key: numbers of equal value are, whatever their types, and tuples
of the same keys. -/
def sameKey : Datum → Datum → Bool
  | .tuple xs, .tuple ys => sameKeys xs ys
  | a, b =>
    match keyNumber? a, keyNumber? b with
    | some x, some y =>
      match x.compare y with
      | .ok order => order.isEq
      | .error _ => false
    | none, none => a == b
    | _, _ => false

/-- Whether the items of two tuples are the same keys. -/
def sameKeys : List Datum → List Datum → Bool
  | [], [] => true
  | x :: xs, y :: ys => sameKey x y && sameKeys xs ys
  | _, _ => false

end

/-- The entries with a value put under a key: in place if the key is there, else at the end. -/
def putEntry (entries : List (Datum × Datum)) (key value : Datum) : List (Datum × Datum) :=
  match entries with
  | [] => [(key, value)]
  | (k, v) :: rest =>
    if sameKey k key then (k, value) :: rest else (k, v) :: putEntry rest key value

/-- The mapping of a list of keys and values. -/
def ofEntries (entries : List (Datum × Datum)) : Datum :=
  .map (entries.foldl (fun es (k, v) => putEntry es k v) [])

end BusinessRules.Datum

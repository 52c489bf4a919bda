import BusinessRules.Document.RuleSet
import BusinessRules.Engine.Session

/-!
# Sessions from documents

The definitions of a document are added in the order of the document, so a definition that repeats
an identifier replaces the rule of the earlier one.

## Main definitions

* `Session.addDefinitions`: the rules of definitions, added in order
* `Session.ofDocument`: a session with the rules of a document
-/

namespace BusinessRules.Session

variable {β : Type}

/-- Add the rules of definitions, in order. -/
def addDefinitions (s : Session β) (ds : List RuleDefinition) : Session β :=
  ds.foldl (fun s d => s.addRule (Rule.ofDefinition d)) s

/-- A session with the rules of a document. -/
def ofDocument (host : Host) (newId : Nat → String) (format : DocumentFormat) (document : Datum)
    (contexts : List (String × Context)) : Outcome (Session β) :=
  (RuleSet.load host newId format document).map fun (ds, log) =>
    ((start contexts).report log).addDefinitions ds

end BusinessRules.Session

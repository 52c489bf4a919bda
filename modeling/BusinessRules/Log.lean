import BusinessRules.Text.Quoted

/-!
# Log entries

What the library reports while it works, beside its results.

## Main definitions

* `LogEntry`: the things reported
* `LogEntry.level`, `LogEntry.message`: how urgent they are and how they are worded
-/

namespace BusinessRules

/-- How urgent a log entry is. -/
inductive LogLevel where
  | debug
  | warning
  deriving DecidableEq, Repr

/-- The name of a level. -/
def LogLevel.name : LogLevel → String
  | .debug => "DEBUG"
  | .warning => "WARNING"

/-- Something reported. -/
inductive LogEntry where
  /-- A rule joined the registry. -/
  | ruleAdded (id : String)
  /-- A rule took the place of another one of the same identifier. -/
  | ruleReplaced (id : String)
  /-- A rule left the registry. -/
  | ruleRemoved (id : String)
  /-- All rules left the registry. -/
  | rulesCleared
  /-- The conditions of a rule did not hold. -/
  | conditionsNotMet (id : String)
  /-- The collection of an iterating rule was not there. -/
  | noCollection (id collection : String)
  /-- The actions of an iterating rule failed for one element. -/
  | iterationFailed (id : String) (index : Nat) (reason : String)
  /-- The result of a rule is a failure. -/
  | ruleFailed (id : String) (error : Option String)
  /-- A document was read. -/
  | definitionsRead (count : Nat)
  /-- A file was read. -/
  | fileLoaded (count : Nat) (path : String)
  /-- A file of a directory was passed over. -/
  | fileFailed (path reason : String)
  deriving DecidableEq, Repr

namespace LogEntry

/-- How urgent an entry is. -/
def level : LogEntry → LogLevel
  | ruleFailed .. | fileFailed .. => .warning
  | _ => .debug

/-- The wording of an entry. -/
def message : LogEntry → String
  | ruleAdded id => "Added rule " ++ id
  | ruleReplaced id => "Replaced rule " ++ id
  | ruleRemoved id => "Removed rule " ++ id
  | rulesCleared => "Cleared all rules"
  | conditionsNotMet id => "Rule " ++ id ++ " skipped: conditions not met"
  | noCollection id collection =>
    "Rule " ++ id ++ " skipped: no iterable " ++ Text.quote collection ++ " in context"
  | iterationFailed id index reason =>
    "Rule " ++ id ++ " iteration " ++ toString index ++ " failed: " ++ reason
  | ruleFailed id error => "Rule " ++ id ++ " failed: " ++ error.getD "None"
  | definitionsRead count => "Parsed " ++ toString count ++ " rule definitions"
  | fileLoaded count path => "Loaded " ++ toString count ++ " rules from " ++ path
  | fileFailed path reason => "Failed to load " ++ path ++ ": " ++ reason

end LogEntry

end BusinessRules

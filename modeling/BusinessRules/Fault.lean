import BusinessRules.Decimal.Basic

/-!
# Faults

Everything that can go wrong, by cause.  A fault carries the texts that its message shows; the
wording stands in one place.

## Main definitions

* `Fault`: the causes
* `Fault.message`: the wording
* `FaultKind`, `Fault.kind`: the coarser classes that callers tell apart
* `Fault.showing`: faults whose messages show something that may not be showable
-/

namespace BusinessRules

/-- Why an evaluation, a registration or the loading of a document fails. -/
inductive Fault where
  /-- A required argument is missing or blank. -/
  | absent (argument : String)
  /-- The environment holds a setting that cannot be read. -/
  | invalidSettings
  /-- The configured precision is a number that no arithmetic supports. -/
  | precisionOutOfRange
  /-- The configured precision is a number that no machine word holds. -/
  | precisionTooLarge
  /-- A group is opened and not closed, or closed and not opened. -/
  | unmatchedParenthesis (text : String)
  /-- A name is neither a literal nor bound. -/
  | unresolved (name : String)
  /-- A divisor is zero. -/
  | divisionByZero
  /-- An expression holds more than one assignment. -/
  | manyAssignments (text : String)
  /-- What is assigned to is not an identifier. -/
  | invalidTarget (text : String)
  /-- An assignment has no right side. -/
  | missingValue (text : String)
  /-- The value of a group has no literal form. -/
  | ungroupable (text : String)
  /-- An operator lacks an operand. -/
  | missingOperand
  /-- An operand is neither a literal nor a name. -/
  | unreadable (text : String)
  /-- An arithmetic operation has no result. -/
  | arithmetic (fault : ArithmeticFault)
  /-- A comparison operator does not exist. -/
  | unknownComparison (operator : String)
  /-- A text holds both kinds of quote marks, so no literal denotes it. -/
  | unquotable (shown : String)
  /-- A collection is asked for its literal form. -/
  | collectionLiteral (shown : String)
  /-- A datum of no canonical kind is asked for its kind. -/
  | notCanonical (shown : String)
  /-- A context without names is used as if it had some. -/
  | namelessContext (reason : String)
  /-- A rule definition does not fit its schema. -/
  | invalidDefinition
  /-- The fields of a rule have names that are not texts. -/
  | fieldNames
  /-- A datum that cannot be a key is looked up. -/
  | unhashable (type : String)
  /-- A number that is marked to fail is looked up. -/
  | signalingLookup
  /-- A document is of a type that holds no rules. -/
  | unsupportedDocument (type : String)
  /-- The bytes of a document are no text. -/
  | undecodableDocument
  /-- The bytes of a rule file are no text. -/
  | undecodableFile (path : String)
  /-- A document is not in the notation of data interchange. -/
  | invalidJson
  /-- A document is not in the notation with indentation. -/
  | invalidYaml
  /-- A whole number in a document has too many digits. -/
  | numberTooLong (digits : Nat)
  /-- A whole number has too many digits to be shown. -/
  | numberUnshowable
  /-- Data are nested deeper than the host goes. -/
  | nestedTooDeep (task : String)
  /-- An escape in a document asks for a code point beyond the last one. -/
  | escapeOutOfRange
  /-- An escape in a document asks for a number that no machine word of half size holds. -/
  | escapeTooLarge
  /-- The root of a document is not a mapping. -/
  | rootNotObject
  /-- The rules of a document are not a list. -/
  | rulesNotList
  /-- A rule is not a mapping. -/
  | ruleNotObject
  /-- The conditions of a rule are not a mapping. -/
  | conditionsNotObject
  /-- A list of conditions is not a list. -/
  | conditionsNotList (key : String)
  /-- A condition is not a mapping. -/
  | conditionNotObject
  /-- A condition names no variable. -/
  | conditionWithoutVariable (shown : String)
  /-- A condition names no operator. -/
  | conditionWithoutOperator (name : String)
  /-- A condition has a variable or an operator that cannot be used. -/
  | invalidCondition (name : String)
  /-- The actions of a rule are not a list. -/
  | actionsNotList
  /-- An action is not a mapping. -/
  | actionNotObject
  /-- An action is of a type that does not exist. -/
  | unknownAction (shown : String)
  /-- A rule of a document does not fit its schema. -/
  | invalidRule
  /-- A rule file does not exist. -/
  | missingFile (path : String)
  /-- A directory of rule files does not exist. -/
  | missingDirectory (path : String)
  /-- A rule or a listener gave up on its own account. -/
  | raised (text : String)
  /-- Something outside of the library gave up on its own account. -/
  | foreign (exception text : String)
  deriving DecidableEq, Repr

/-- The classes of faults that callers tell apart. -/
inductive FaultKind where
  | nullArgument
  | fileNotFound
  | parse
  | expressionParse
  | unresolvedReference
  | divideByZero
  | invalidExpression
  | validation
  | value
  | type
  | runtime
  | invalidOperation
  | overflow
  | wordOverflow
  | memory
  | recursion
  | foreign (exception : String)
  deriving DecidableEq, Repr

namespace Fault

/-- The class of a fault. -/
def kind : Fault → FaultKind
  | absent _ => .nullArgument
  | missingFile _ | missingDirectory _ => .fileNotFound
  | unmatchedParenthesis _ => .expressionParse
  | unresolved _ => .unresolvedReference
  | divisionByZero => .divideByZero
  | manyAssignments _ | invalidTarget _ | missingValue _ | ungroupable _ | missingOperand
  | unreadable _ => .invalidExpression
  | invalidSettings | invalidDefinition => .validation
  | precisionOutOfRange | unknownComparison _ | unquotable _ | collectionLiteral _
  | numberTooLong _ | numberUnshowable | escapeOutOfRange => .value
  | precisionTooLarge | escapeTooLarge => .wordOverflow
  | notCanonical _ | namelessContext _ | fieldNames | unhashable _ | signalingLookup => .type
  | raised _ => .runtime
  | nestedTooDeep _ => .recursion
  | foreign exception _ => .foreign exception
  | arithmetic .invalidOperation => .invalidOperation
  | arithmetic .overflow => .overflow
  | arithmetic .tooLong => .memory
  | unsupportedDocument _ | undecodableDocument | undecodableFile _ | invalidJson | invalidYaml
  | rootNotObject | rulesNotList | ruleNotObject | conditionsNotObject | conditionsNotList _
  | conditionNotObject | conditionWithoutVariable _ | conditionWithoutOperator _
  | invalidCondition _ | actionsNotList | actionNotObject | unknownAction _ | invalidRule => .parse

/-- The wording of a fault. -/
def message : Fault → String
  | absent argument => "Argument must not be None: " ++ argument
  | invalidSettings => "Invalid settings"
  | precisionOutOfRange => "valid range for prec is [1, MAX_PREC]"
  | precisionTooLarge => "Python int too large to convert to C ssize_t"
  | unmatchedParenthesis text => "Unmatched parenthesis in: " ++ text
  | unresolved name => "Unresolved reference: " ++ name
  | divisionByZero => "Division by zero"
  | manyAssignments text => "Invalid assignment expression: " ++ text
  | invalidTarget text => "Invalid assignment target in: " ++ text
  | missingValue text => "Missing value in assignment: " ++ text
  | ungroupable text => "Cannot substitute grouped value in: " ++ text
  | missingOperand => "Missing operand"
  | unreadable text => "Cannot evaluate expression: " ++ text
  | arithmetic .invalidOperation => "[<class 'decimal.InvalidOperation'>]"
  | arithmetic .overflow => "[<class 'decimal.Overflow'>]"
  | arithmetic .tooLong => ""
  | unknownComparison operator => "Unknown comparison operator: " ++ operator
  | unquotable shown => "String cannot be written as a literal: " ++ shown
  | collectionLiteral shown => "Collections have no literal form: " ++ shown
  | notCanonical shown => "Not a canonical value: " ++ shown
  | namelessContext reason => reason
  | invalidDefinition => "Invalid rule definition"
  | fieldNames => "keywords must be strings"
  | unhashable type => "unhashable type: '" ++ type ++ "'"
  | signalingLookup => "Cannot hash a signaling NaN value"
  | unsupportedDocument type => "Unsupported document type: " ++ type
  | undecodableDocument => "Rule document is not valid UTF-8"
  | undecodableFile path => "Rule file is not valid UTF-8: " ++ path
  | invalidJson => "Invalid JSON document"
  | invalidYaml => "Invalid YAML document"
  | numberTooLong digits =>
    "Exceeds the limit (4300 digits) for integer string conversion: value has " ++
      toString digits ++ " digits; use sys.set_int_max_str_digits() to increase the limit"
  | numberUnshowable =>
    "Exceeds the limit (4300 digits) for integer string conversion; " ++
      "use sys.set_int_max_str_digits() to increase the limit"
  | nestedTooDeep task => "maximum recursion depth exceeded while " ++ task
  | escapeOutOfRange => "chr() arg not in range(0x110000)"
  | escapeTooLarge => "Python int too large to convert to C int"
  | rootNotObject => "Rule document root must be an object"
  | rulesNotList => "'rules' must be a list"
  | ruleNotObject => "Each rule must be an object"
  | conditionsNotObject => "'conditions' must be an object"
  | conditionsNotList key => "'conditions." ++ key ++ "' must be a list"
  | conditionNotObject => "Condition items must be objects"
  | conditionWithoutVariable shown => "Condition item has no 'var': " ++ shown
  | conditionWithoutOperator name =>
    "Condition on '" ++ name ++ "' has no comparison operator"
  | invalidCondition name => "Invalid condition on '" ++ name ++ "'"
  | actionsNotList => "'actions' must be a list"
  | actionNotObject => "Actions must be objects"
  | unknownAction shown => "Unknown action type: " ++ shown
  | invalidRule => "Invalid rule document"
  | missingFile path => "Rule file not found: " ++ path
  | missingDirectory path => "Rules directory not found: " ++ path
  | raised text | foreign _ text => text

end Fault

/-- The result of a step that may fail. -/
abbrev Outcome (α : Type) := Except Fault α

/-- The fault whose message shows something; if that cannot be shown, the reason why. -/
def Fault.showing (cause : String → Fault) : Outcome String → Fault
  | .ok shown => cause shown
  | .error f => f

end BusinessRules

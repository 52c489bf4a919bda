import BusinessRules.Datum.Lookup
import BusinessRules.Document.Host
import BusinessRules.Document.Json
import BusinessRules.Log
import BusinessRules.Rule.Definition

/-!
# Rule documents

A rule document is a mapping with a list of rules, given as text, as bytes, or already read.  A
condition of a document spells its operator either as a field of its own, with the datum as the
value of that field, or in the fields `op` and `value`; both spellings mean the same.

A rule is read within the room that there is for showing data: the message of a fault may show what
was found, and if that cannot be shown, this is the fault.

## Main definitions

* `DocumentFormat`: the notations of texts
* `RuleSet.definitions`: the rule definitions of a document
* `RuleSet.load`: the same, with what is reported
-/

namespace BusinessRules

/-- The notations of text documents. -/
inductive DocumentFormat where
  | json
  | yaml
  deriving DecidableEq, Repr

namespace RuleSet

/-! ## Conditions -/

/-- The second spellings of operators. -/
def aliases : List (String × String) := [("=", "=="), ("<>", "!=")]

/-- Whether a key of a condition is an operator. -/
def isOperatorKey (key : String) : Bool :=
  Comparison.all.any (·.symbol = key) || aliases.any (·.1 = key)

/-- The operator and the datum of a condition, as far as they are known. -/
structure Spelling where
  operator : Datum
  value : Option Datum

/-- What the fields `op` and `value` say. -/
def Spelling.explicit (entries : List (Datum × Datum)) : Spelling :=
  ⟨Datum.field entries "op", Datum.field? entries "value"⟩

/-- What an entry adds: an operator key gives whatever is still unknown. -/
def Spelling.addEntry (s : Spelling) (entry : Datum × Datum) : Spelling :=
  match entry with
  | (.text key, d) =>
    if isOperatorKey key then
      ⟨match s.operator with | .null => .text key | known => known, s.value.or (some d)⟩
    else s
  | _ => s

/-- The first spelling of an operator that a datum spells; only texts have a second spelling. -/
def unalias : Datum → Datum
  | .text s => .text ((aliases.lookup s).getD s)
  | d => d

/-- Read a condition. -/
def readItem (room : Room) : Datum → Outcome ConditionItem
  | .map entries =>
    let var := Datum.field entries "var"
    if !var.isFilled then
      .error (.showing .conditionWithoutVariable ((Datum.map entries).shown room))
    else
      let spelling := entries.foldl Spelling.addEntry (.explicit entries)
      match spelling.operator with
      | .null => .error (.showing .conditionWithoutOperator (var.display room))
      | operator =>
        match operator.lookupFault? with
        | some f => .error f
        | none =>
          match var.asText?, (unalias operator).asComparison? with
          | some name, some comparison => .ok ⟨name, comparison, spelling.value.getD .null⟩
          | _, _ => .error (.showing .invalidCondition (var.display room))
  | _ => .error .conditionNotObject

/-- Read one of the two lists of conditions. -/
def readItems (room : Room) (entries : List (Datum × Datum)) (key : String) :
    Outcome (Option (List ConditionItem)) :=
  match Datum.field entries key with
  | .null => .ok none
  | .list items => (items.mapM (readItem room)).map some
  | _ => .error (.conditionsNotList key)

/-- Read the conditions of a rule. -/
def readGroup (room : Room) : Datum → Outcome ConditionGroup
  | .map entries =>
    match readItems room entries "all" with
    | .error f => .error f
    | .ok all =>
      match readItems room entries "any" with
      | .error f => .error f
      | .ok any => .ok ⟨all, any⟩
  | _ => .error .conditionsNotObject

/-- Read the conditions of a rule that may have none. -/
def readConditions (room : Room) (entries : List (Datum × Datum)) :
    Outcome (Option ConditionGroup) :=
  let conditions := Datum.field entries "conditions"
  if conditions.isFilled then (readGroup room conditions).map some else .ok none

/-! ## Rules -/

/-- Check that a datum has the shape of an action. -/
def checkAction (room : Room) : Datum → Outcome Unit
  | .map entries =>
    let type := Datum.field entries "type"
    if type == .text "compute" || type == .text "if" then .ok ()
    else .error (.showing .unknownAction (type.shown room))
  | _ => .error .actionNotObject

/-- Check that the actions of a rule have the shape of actions. -/
def checkActions (room : Room) (entries : List (Datum × Datum)) : Outcome Unit :=
  let actions := Datum.field entries "actions"
  if !actions.isFilled then .ok ()
  else
    match actions with
    | .list items => items.forM (checkAction room)
    | _ => .error .actionsNotList

/-- Whether a datum is a text. -/
def isText : Datum → Bool
  | .text _ => true
  | _ => false

/-- Read a rule. -/
def readRule (room : Room) (newId : String) : Datum → Outcome RuleDefinition
  | .map entries =>
    match readConditions room entries with
    | .error f => .error f
    | .ok conditions =>
      match checkActions room entries with
      | .error f => .error f
      | .ok _ =>
        if !entries.all fun e => isText e.1 then .error .fieldNames
        else
          match RuleDefinition.ofEntries? newId conditions entries with
          | some d => .ok d
          | none => .error .invalidRule
  | _ => .error .ruleNotObject

/-- Read rules in order, each with a new identifier at hand. -/
def readRules (room : Room) (newId : Nat → String) (items : List Datum) :
    Outcome (List RuleDefinition) :=
  items.zipIdx.mapM fun (item, i) => readRule room (newId i) item

/-! ## Documents -/

/-- The datum that a text with indentation denotes, according to a reader of such texts. -/
def readYaml (read : Yaml.Reader) (s : String) : Outcome Datum :=
  match read s with
  | .ok d => .ok d
  | .error .malformed => .error .invalidYaml
  | .error (.raised f) => .error f

/-- The datum that a text denotes. -/
def readText (host : Host) (format : DocumentFormat) (s : String) : Outcome Datum :=
  if Text.isBlankText s then .error (.absent "document")
  else
    match format with
    | .json => Json.read host.reading s
    | .yaml => readYaml host.yaml s

/-- The datum that a document denotes: a mapping itself, else that of its text. -/
def readDocument (host : Host) (format : DocumentFormat) : Datum → Outcome Datum
  | .null => .error (.absent "document")
  | .map entries => .ok (.map entries)
  | .text s => readText host format s
  | .bytes bs =>
    match Text.ofUtf8? bs with
    | some s => readText host format s
    | none => .error .undecodableDocument
  | d => .error (.unsupportedDocument d.typeName)

/-- The rules of a root mapping, if it has any. -/
def rulesOf : Datum → Outcome (Option (List Datum))
  | .map entries =>
    match Datum.field entries "rules" with
    | .null => .ok none
    | .list items => .ok (some items)
    | _ => .error .rulesNotList
  | _ => .error .rootNotObject

/-- The rule definitions of a document, with what is reported: nothing if it has no rules field. -/
def load (host : Host) (newId : Nat → String) (format : DocumentFormat) (document : Datum) :
    Outcome (List RuleDefinition × List LogEntry) :=
  match readDocument host format document with
  | .error f => .error f
  | .ok root =>
    match rulesOf root with
    | .error f => .error f
    | .ok none => .ok ([], [])
    | .ok (some items) =>
      (readRules host.showing newId items).map fun ds => (ds, [.definitionsRead ds.length])

/-- The rule definitions of a document. -/
def definitions (host : Host) (newId : Nat → String) (format : DocumentFormat)
    (document : Datum) : Outcome (List RuleDefinition) :=
  (load host newId format document).map Prod.fst

end RuleSet

end BusinessRules

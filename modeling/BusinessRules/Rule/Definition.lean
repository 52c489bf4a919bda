import BusinessRules.Rule.Action
import BusinessRules.Rule.Condition

/-!
# Rule definitions

A definition describes a rule by data: its identity, its priority, the conditions under which it
acts, its actions, and possibly the collection for whose elements the actions are run one by one.
Definitions are read from mappings.  Text fields and operators take texts and the bytes of texts;
the priority takes every datum that stands for a whole number; fields that no rule has are
ignored.

## Main definitions

* `RuleDefinition`: the definitions
* `RuleDefinition.collection?`: the name of the collection that a definition iterates over
* `RuleDefinition.ofDatum?`: reading a definition
-/

namespace BusinessRules

/- Powers are the plain ones of the natural numbers and the integers. -/
attribute [local instance (2000)] instPowNat

/-- A rule described by data. -/
structure RuleDefinition where
  id : String
  name : String
  description : String
  priority : Int
  conditions : Option ConditionGroup
  actions : Option (List Action)
  foreach : Option String
  deriving Repr, BEq

/-- The name of the collection that a definition iterates over, unless it is blank. -/
def RuleDefinition.collection? (d : RuleDefinition) : Option String :=
  (d.foreach.map fun s => String.ofList (Text.trim s.toList)).filter (!·.isEmpty)

namespace Datum

/-- The text that a text field takes a datum for: a text, or the bytes of one. -/
def asText? : Datum → Option String
  | .text s => some s
  | .bytes bs => Text.ofUtf8? bs
  | _ => none

/-- The comparison that an operator field takes a datum for. -/
def asComparison? (d : Datum) : Option Comparison := d.asText?.bind Comparison.ofSymbol?

/-- The whole number that a decimal is equal to. -/
def wholeOfDecimal? : Decimal → Option Int
  | .finite negative c e =>
    if c = 0 then some 0
    else if 0 ≤ e then some (Decimal.toSigned negative (c * 10 ^ e.toNat))
    else if digitCount c ≤ (-e).toNat then none
    else if c % 10 ^ (-e).toNat = 0 then some (Decimal.toSigned negative (c / 10 ^ (-e).toNat))
    else none
  | _ => none

/-- The whole number that a number field takes a datum for.  Binary numbers count if they fit into
a machine word. -/
def asInt? : Datum → Option Int
  | .int n => some n
  | .bool b => some (if b then 1 else 0)
  | .decimal n => wholeOfDecimal? n
  | .float x => x.toInt?.filter fun n => n.natAbs < 2 ^ (63 : Nat)
  | .text s => Text.wholeNumber? s
  | .bytes bs => (Text.ofUtf8? bs).bind Text.wholeNumber?
  | _ => none

/-- A field that may be missing: null counts as missing. -/
def optional? {α : Type} (read : Datum → Option α) : Datum → Option (Option α)
  | .null => some none
  | d => (read d).map some

/-- The items that a list field takes a datum for, each of them read. -/
def asList? {α : Type} (read : Datum → Option α) (d : Datum) : Option (List α) :=
  d.elements?.bind fun items => items.mapM read

end Datum

/-- Read a comparison from a mapping. -/
def ConditionItem.ofDatum? : Datum → Option ConditionItem
  | .map entries => do
    let name ← (Datum.field entries "var").asText?
    let comparison ← (Datum.field entries "op").asComparison?
    return ⟨name, comparison, Datum.field entries "value"⟩
  | _ => none

/-- Read the two lists of comparisons from a mapping. -/
def ConditionGroup.ofDatum? : Datum → Option ConditionGroup
  | .map entries => do
    let all ← Datum.optional? (Datum.asList? ConditionItem.ofDatum?) (Datum.field entries "all")
    let any ← Datum.optional? (Datum.asList? ConditionItem.ofDatum?) (Datum.field entries "any")
    return ⟨all, any⟩
  | _ => none

/-- Read an action from a mapping.  The second branch of a choice has two spellings. -/
def Action.ofDatum? : Datum → Option Action
  | .map entries =>
    match Datum.field entries "type" with
    | .text "compute" => (Datum.field entries "expression").asText?.map .compute
    | .text "if" => do
      let condition ← (Datum.field entries "condition").asText?
      let yes ← Datum.optional? Datum.asText? (Datum.field entries "then")
      let no ← Datum.optional? Datum.asText?
        (((Datum.field? entries "else").or (Datum.field? entries "else_")).getD .null)
      return .choose condition yes no
    | _ => none
  | _ => none

namespace RuleDefinition

/-- A field that a default stands in for. -/
def fieldOr (entries : List (Datum × Datum)) (key : String) (default : Datum) : Datum :=
  match Datum.field entries key with
  | .null => default
  | d => d

/-- Read a definition whose conditions are known.  A missing or empty identifier is replaced by a
new one, a missing or empty name by the identifier. -/
def ofEntries? (newId : String) (conditions : Option ConditionGroup)
    (entries : List (Datum × Datum)) : Option RuleDefinition := do
  let idDatum := Datum.field entries "id"
  let idDatum := if idDatum.isFilled then idDatum else .text newId
  let nameDatum := Datum.field entries "name"
  let id ← idDatum.asText?
  let name ← (if nameDatum.isFilled then nameDatum else idDatum).asText?
  let description ← (fieldOr entries "description" (.text "")).asText?
  let priority ← (fieldOr entries "priority" (.int 0)).asInt?
  let actions ← Datum.optional? (Datum.asList? Action.ofDatum?) (Datum.field entries "actions")
  let foreach ← Datum.optional? Datum.asText? (Datum.field entries "foreach")
  return ⟨id, name, description, priority, conditions, actions, foreach⟩

/-- Read a definition from a mapping. -/
def ofDatum? (newId : String) : Datum → Option RuleDefinition
  | .map entries =>
    (Datum.optional? ConditionGroup.ofDatum? (Datum.field entries "conditions")).bind
      fun conditions => ofEntries? newId conditions entries
  | _ => none

end RuleDefinition

end BusinessRules

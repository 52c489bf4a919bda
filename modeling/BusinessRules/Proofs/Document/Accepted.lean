import BusinessRules.Document.Yaml
import BusinessRules.Engine.Rule
import BusinessRules.Proofs.Document.Condition
import BusinessRules.Proofs.Document.Draft

/-!
# Definitions that are accepted as they stand

There are two ways from data to a rule.  A mapping may be read as a definition directly, or it may
be a rule of a document, whose reader looks at the shape of the conditions and of the actions
before any field is read.  These checks refuse nothing that is accepted directly, as long as the
data are those of data interchange and the conditions have the fields of comparisons only.  Only
conditions without any field are told apart: they are conditions of a definition, but the reader
takes them for none.

## Main definitions

* `Datum.isJson`: the data of data interchange
* `RuleSet.PlainItem`, `RuleSet.PlainConditions`: conditions with the fields of comparisons only

## Main statements

* `RuleSet.readItem_of_accepted`: conditions that are accepted directly
* `RuleSet.readConditions_of_accepted`, `RuleSet.checkActions_of_accepted`: the two fields whose
  shape is checked
-/

namespace BusinessRules

namespace Datum

/-! ## The data of data interchange -/

mutual

/-- Whether a datum is one of data interchange: without bytes, tuples, sets, ranges, streams and
other objects, and with texts as keys. -/
def isJson : Datum → Bool
  | .null | .bool _ | .int _ | .decimal _ | .float _ | .text _ => true
  | .list items => areJson items
  | .map entries => fieldsJson entries
  | .bytes _ | .tuple _ | .set _ | .range _ | .stream .. | .other _ => false

/-- Whether all items are data of data interchange. -/
def areJson : List Datum → Bool
  | [] => true
  | d :: ds => isJson d && areJson ds

/-- Whether all entries have texts as keys and data of data interchange as values. -/
def fieldsJson : List (Datum × Datum) → Bool
  | [] => true
  | (k, d) :: es => RuleSet.isText k && isJson d && fieldsJson es

end

variable {entries : List (Datum × Datum)} {items : List Datum} {d : Datum}

theorem isJson_field (h : fieldsJson entries = true) (key : String) :
    isJson (field entries key) = true := by
  rw [field]
  induction entries with
  | nil => rfl
  | cons e entries ih =>
    obtain ⟨k, d⟩ := e
    rw [fieldsJson, Bool.and_eq_true, Bool.and_eq_true] at h
    cases k with
    | text k =>
      rw [field?]
      split
      · exact h.1.2
      · exact ih h.2
    | _ => exact ih h.2

theorem all_isText_of_fieldsJson (h : fieldsJson entries = true) :
    (entries.all fun e => RuleSet.isText e.1) = true := by
  induction entries with
  | nil => rfl
  | cons e entries ih =>
    rw [fieldsJson, Bool.and_eq_true, Bool.and_eq_true] at h
    rw [List.all_cons, h.1.1, ih h.2]
    rfl

/-- A field that may be missing is null, or read. -/
theorem optional?_eq_some {α : Type} {read : Datum → Option α} {o : Option α}
    (h : optional? read d = some o) : d = .null ∧ o = none ∨ ∃ a, read d = some a ∧ o = some a := by
  cases d with
  | null => exact .inl ⟨rfl, (Option.some.inj h).symm⟩
  | _ =>
    obtain ⟨a, ha, rfl⟩ := Option.map_eq_some_iff.1 h
    exact .inr ⟨a, ha, rfl⟩

/-- In data interchange only lists are read as lists. -/
theorem exists_list_of_asList? {α : Type} {read : Datum → Option α} {xs : List α}
    (hjson : isJson d = true) (h : asList? read d = some xs) :
    ∃ items, d = .list items ∧ areJson items = true ∧ items.mapM read = some xs := by
  cases d with
  | list items => exact ⟨items, rfl, by rwa [isJson] at hjson, h⟩
  | tuple _ | set _ | range _ | stream _ _ => cases hjson
  | _ => cases h

end Datum

namespace RuleSet

open Datum

variable {entries : List (Datum × Datum)} {room : Room}

/-! ## Conditions -/

/-- A condition that names its variable and has no fields but those of a comparison. -/
inductive PlainItem : Datum → Prop
  | intro {fields : List (String × Datum)} (hvar : field (entriesOf fields) "var" ≠ .text "")
      (hkeys : ∀ e ∈ fields, e.1 = "var" ∨ e.1 = "op" ∨ e.1 = "value") :
      PlainItem (object fields)

/-- Rules whose conditions name their variables and have no fields but those of a comparison. -/
def PlainConditions (entries : List (Datum × Datum)) : Prop :=
  ∀ d, IsCondition entries d → PlainItem d

/-- First spellings have no other first spelling. -/
theorem unalias_of_asComparison? {d : Datum} {comparison : Comparison}
    (h : d.asComparison? = some comparison) : unalias d = d := by
  cases d with
  | text s =>
    have hfind : (Comparison.all.find? fun op => op.symbol = s) = some comparison := h
    have hs : comparison.symbol = s := by simpa using List.find?_some hfind
    rw [← hs]
    cases comparison <;> rfl
  | _ => rfl

/-- A condition that is accepted directly is read as it stands. -/
theorem readItem_of_accepted {d : Datum} {item : ConditionItem} (hplain : PlainItem d)
    (hjson : d.isJson = true) (h : ConditionItem.ofDatum? d = some item) :
    readItem room d = .ok item := by
  cases hplain with
  | @intro fields hvar hkeys =>
    rw [object, isJson] at hjson
    have hvarJson := isJson_field hjson "var"
    have hfold : (entriesOf fields).foldl Spelling.addEntry (.explicit (entriesOf fields)) =
        ⟨field (entriesOf fields) "op", field? (entriesOf fields) "value"⟩ := by
      refine foldl_addEntry_of_not_operator (fun e he => ?_) _
      rcases hkeys e he with hkey | hkey | hkey <;> rw [hkey] <;> decide
    simp only [object, ConditionItem.ofDatum?, Option.bind_eq_bind, Option.bind_eq_some_iff] at h
    obtain ⟨name, hname, comparison, hcomparison, hitem⟩ := h
    obtain rfl := Option.some.inj hitem
    have hfilled : (field (entriesOf fields) "var").isFilled = true := by
      generalize field (entriesOf fields) "var" = var at hname hvar hvarJson
      cases var with
      | text s => simpa [isFilled] using fun hs => hvar (congrArg Datum.text hs)
      | bytes bs => cases hvarJson
      | _ => cases hname
    have hvalue : (field? (entriesOf fields) "value").getD .null =
        field (entriesOf fields) "value" := rfl
    rw [object, readItem]
    dsimp only
    rw [hfold, hfilled]
    generalize field (entriesOf fields) "op" = op at hcomparison
    have hlookup : op.lookupFault? = none := by
      cases op with
      | text s => exact lookupFault?_text s
      | bytes bs => simp [lookupFault?]
      | _ => cases hcomparison
    -- A null would count as no operator at all.
    have hnull : op ≠ .null := by
      rintro rfl
      cases hcomparison
    simp [hlookup, hname, unalias_of_asComparison? hcomparison, hcomparison, hvalue]

/-- Items that are accepted directly are read as they stand. -/
theorem mapM_readItem_of_accepted {items : List Datum} {found : List ConditionItem}
    (hplain : ∀ item ∈ items, PlainItem item) (hjson : areJson items = true)
    (h : items.mapM ConditionItem.ofDatum? = some found) : items.mapM (readItem room) = .ok found := by
  induction items generalizing found with
  | nil =>
    obtain rfl : [] = found := Option.some.inj h
    rfl
  | cons item items ih =>
    rw [areJson, Bool.and_eq_true] at hjson
    rw [List.forall_mem_cons] at hplain
    simp only [List.mapM_cons, Option.bind_eq_bind, Option.bind_eq_some_iff] at h
    obtain ⟨first, hfirst, rest, hrest, hfound⟩ := h
    obtain rfl := Option.some.inj hfound
    rw [List.mapM_cons, readItem_of_accepted hplain.1 hjson.1 hfirst, ih hplain.2 hjson.2 hrest]
    rfl

theorem readItems_of_accepted {key : String} {found : Option (List ConditionItem)}
    (hplain : ∀ items, field entries key = .list items → ∀ item ∈ items, PlainItem item)
    (hjson : fieldsJson entries = true)
    (h : optional? (asList? ConditionItem.ofDatum?) (field entries key) = some found) :
    readItems room entries key = .ok found := by
  rw [readItems]
  rcases optional?_eq_some h with ⟨hnull, rfl⟩ | ⟨xs, hxs, rfl⟩
  · rw [hnull]
  · obtain ⟨items, hitems, hitemsJson, hmapM⟩ :=
      exists_list_of_asList? (isJson_field hjson key) hxs
    rw [hitems]
    dsimp only
    rw [mapM_readItem_of_accepted (hplain items hitems) hitemsJson hmapM]
    rfl

/-- Conditions that are accepted directly are read as they stand, except that conditions without
any field are none. -/
theorem readConditions_of_accepted {conditions : Option ConditionGroup}
    (hplain : PlainConditions entries) (hjson : fieldsJson entries = true)
    (h : optional? ConditionGroup.ofDatum? (field entries "conditions") = some conditions) :
    readConditions room entries = .ok conditions ∨
      field entries "conditions" = .map [] ∧ conditions = some ⟨none, none⟩ ∧
        readConditions room entries = .ok none := by
  rw [readConditions]
  have hconditionsJson := isJson_field hjson "conditions"
  rcases optional?_eq_some h with ⟨hnull, rfl⟩ | ⟨group, hgroup, rfl⟩
  · rw [hnull]
    exact .inl rfl
  · cases hconditions : field entries "conditions" with
    | map fields =>
      rw [hconditions] at hgroup hconditionsJson
      rw [isJson] at hconditionsJson
      simp only [ConditionGroup.ofDatum?, Option.bind_eq_bind, Option.bind_eq_some_iff] at hgroup
      obtain ⟨all, hall, any, hany, hpair⟩ := hgroup
      obtain rfl := Option.some.inj hpair
      cases fields with
      | nil =>
        cases hall
        cases hany
        exact .inr ⟨rfl, rfl, rfl⟩
      | cons e fields =>
        refine .inl ?_
        have hitems : ∀ key, key = "all" ∨ key = "any" → ∀ items,
            field (e :: fields) key = .list items → ∀ item ∈ items, PlainItem item :=
          fun key hkey items hitems item hitem =>
            hplain item ⟨_, items, key, hconditions, hkey, hitems, hitem⟩
        rw [readGroup_map,
          readItems_of_accepted (hitems "all" (.inl rfl)) hconditionsJson hall,
          readItems_of_accepted (hitems "any" (.inr rfl)) hconditionsJson hany]
        rfl
    | _ =>
      rw [hconditions] at hgroup
      cases hgroup

/-! ## Actions -/

theorem checkAction_of_accepted {d : Datum} {action : Action}
    (h : Action.ofDatum? d = some action) : checkAction room d = .ok () := by
  cases d with
  | map entries =>
    rw [Action.ofDatum?] at h
    split at h
    · next htype => simp [checkAction, htype]
    · next htype => simp [checkAction, htype]
    · cases h
  | _ => cases h

theorem forM_checkAction_of_accepted {items : List Datum} {actions : List Action}
    (h : items.mapM Action.ofDatum? = some actions) : items.forM (checkAction room) = .ok () := by
  induction items generalizing actions with
  | nil => rfl
  | cons item items ih =>
    simp only [List.mapM_cons, Option.bind_eq_bind, Option.bind_eq_some_iff] at h
    obtain ⟨action, haction, rest, hrest, -⟩ := h
    rw [List.forM_eq_forM] at ih ⊢
    rw [List.forM_cons, checkAction_of_accepted haction]
    exact ih hrest

/-- Actions that are accepted directly have the shape of actions. -/
theorem checkActions_of_accepted {actions : Option (List Action)}
    (hjson : fieldsJson entries = true)
    (h : optional? (asList? Action.ofDatum?) (field entries "actions") = some actions) :
    checkActions room entries = .ok () := by
  rw [checkActions]
  rcases optional?_eq_some h with ⟨hnull, -⟩ | ⟨xs, hxs, -⟩
  · rw [hnull]
    rfl
  · obtain ⟨items, hitems, -, hmapM⟩ := exists_list_of_asList? (isJson_field hjson "actions") hxs
    rw [hitems]
    dsimp only
    rw [forM_checkAction_of_accepted hmapM]
    split <;> rfl

/-! ## Rules -/

/-- A rule whose conditions and actions have the shapes of theirs is read as its draft. -/
theorem readRule_of_checked {conditions : Option ConditionGroup} {t : Draft}
    (hconditions : readConditions room entries = .ok conditions)
    (hactions : checkActions room entries = .ok ())
    (hkeys : (entries.all fun e => isText e.1) = true)
    (ht : Draft.ofEntries? conditions entries = some t) (newId : String) :
    readRule room newId (.map entries) = .ok (t.complete newId) := by
  simp [readRule, hconditions, hactions, hkeys, RuleDefinition.ofEntries?_eq, ht]

/-- The conditions of a draft are those that are given, and no other field depends on them. -/
theorem ofEntries?_conditions {conditions : Option ConditionGroup} {t : Draft}
    (ht : Draft.ofEntries? conditions entries = some t) (others : Option ConditionGroup) :
    t.conditions = conditions ∧
      Draft.ofEntries? others entries = some { t with conditions := others } := by
  simp only [Draft.ofEntries?, Option.bind_eq_bind, Option.bind_eq_some_iff] at ht ⊢
  obtain ⟨id, hid, name, hname, description, hdescription, priority, hpriority, actions, hactions,
    foreach, hforeach, ht⟩ := ht
  obtain rfl := Option.some.inj ht
  exact ⟨rfl, id, hid, name, hname, description, hdescription, priority, hpriority, actions,
    hactions, foreach, hforeach, rfl⟩

/-- The definitions of a document with one rule. -/
theorem definitions_singleton (host : Host) (newId : Nat → String) (format : DocumentFormat)
    (rule : Datum) : definitions host newId format (.map [(.text "rules", .list [rule])]) =
      (readRule host.showing (newId 0) rule).map fun d => [d] := by
  have hrules : rulesOf (.map [(.text "rules", .list [rule])]) = .ok (some [rule]) := rfl
  rw [definitions, load, readDocument]
  dsimp only
  rw [hrules]
  dsimp only
  rw [readRules, List.zipIdx_cons, List.zipIdx_nil, List.mapM_cons, List.mapM_nil]
  dsimp only
  cases readRule host.showing (newId 0) rule <;> rfl

/-- The class of a rule depends on none of the fields that a document may change. -/
theorem className_complete {β : Type} (t : Draft) (conditions : Option ConditionGroup)
    (newId newId' : String) :
    (Rule.ofDefinition (({ t with conditions := conditions } : Draft).complete newId) :
        Rule β).className =
      (Rule.ofDefinition (t.complete newId') : Rule β).className := by
  have hcollection : (({ t with conditions := conditions } : Draft).complete newId).collection? =
      (t.complete newId').collection? := rfl
  rw [Rule.ofDefinition, Rule.ofDefinition, hcollection]
  cases (t.complete newId').collection? <;> rfl

/-- **What is accepted directly is accepted in a document.** A mapping of data interchange that is
read as a definition, with conditions that have the fields of comparisons only, is as the single
rule of a document read as the same definition: of the same class and with the same fields, but
for a new identifier and a name that it stands in for.  Only if the conditions are a mapping
without fields, they are none. -/
theorem definitions_accepted (host : Host) {given : String} (hjson : (Datum.map entries).isJson = true)
    (hplain : PlainConditions entries)
    (haccepted : (RuleDefinition.ofDatum? given (.map entries)).isSome = true) :
    ∃ (t : Draft) (conditions : Option ConditionGroup),
      (∀ newId, RuleDefinition.ofDatum? newId (.map entries) = some (t.complete newId)) ∧
      (∀ newId format, definitions host newId format
          (.map [(.text "rules", .list [.map entries])]) =
        .ok [({ t with conditions := conditions } : Draft).complete (newId 0)]) ∧
      (conditions = t.conditions ∨
        field entries "conditions" = .map [] ∧ t.conditions = some ⟨none, none⟩ ∧
          conditions = none) ∧
      ∀ (β : Type) (newId newId' : String),
        (Rule.ofDefinition (({ t with conditions := conditions } : Draft).complete newId) :
            Rule β).className =
          (Rule.ofDefinition (t.complete newId') : Rule β).className := by
  rw [isJson] at hjson
  obtain ⟨d, hd⟩ := Option.isSome_iff_exists.1 haccepted
  rw [RuleDefinition.ofDatum?, Option.bind_eq_some_iff] at hd
  obtain ⟨group, hgroup, hd⟩ := hd
  rw [RuleDefinition.ofEntries?_eq, Option.map_eq_some_iff] at hd
  obtain ⟨t, ht, -⟩ := hd
  have hdirect : ∀ newId, RuleDefinition.ofDatum? newId (.map entries) = some (t.complete newId) :=
    fun newId => by
      rw [RuleDefinition.ofDatum?, hgroup, Option.bind_some, RuleDefinition.ofEntries?_eq, ht,
        Option.map_some]
  obtain ⟨conditions, hread, hsame⟩ : ∃ conditions,
      readConditions host.showing entries = .ok conditions ∧
      (conditions = t.conditions ∨
        field entries "conditions" = .map [] ∧ t.conditions = some ⟨none, none⟩ ∧
          conditions = none) := by
    rw [(ofEntries?_conditions ht none).1]
    rcases readConditions_of_accepted hplain hjson hgroup with hread | ⟨hfield, hempty, hread⟩
    · exact ⟨group, hread, .inl rfl⟩
    · exact ⟨none, hread, .inr ⟨hfield, hempty, rfl⟩⟩
  have hactions : checkActions host.showing entries = .ok () := by
    simp only [Draft.ofEntries?, Option.bind_eq_bind, Option.bind_eq_some_iff] at ht
    obtain ⟨-, -, -, -, -, -, -, -, actions, hactions, -⟩ := ht
    exact checkActions_of_accepted hjson hactions
  refine ⟨t, conditions, hdirect, fun newId format => ?_, hsame,
    fun β newId newId' => className_complete t conditions newId newId'⟩
  rw [definitions_singleton, readRule_of_checked hread hactions (all_isText_of_fieldsJson hjson)
    (ofEntries?_conditions ht conditions).2]
  rfl

/-- A rule without an identifier, with a condition, a choice and a blank collection. -/
def unnamed : List (Datum × Datum) :=
  entriesOf [("name", .text ""), ("priority", .bool true),
    ("conditions", object [("all", .null),
      ("any", .list [object [("var", .text "x"), ("op", .text "<="), ("value", .list [.int 1])]])]),
    ("actions", .list [object [("type", .text "if"), ("condition", .text "x > 0"),
      ("else_", .text "y = 1")]]),
    ("foreach", .text " ")]

theorem plainConditions_unnamed : PlainConditions unnamed := by
  rintro item ⟨group, items, key, hgroup, hkey, hitems, hitem⟩
  have hconditions : field unnamed "conditions" = object [("all", .null), ("any", .list
      [object [("var", .text "x"), ("op", .text "<="), ("value", .list [.int 1])]])] := rfl
  rw [hconditions] at hgroup
  obtain rfl := Datum.map.inj hgroup
  rcases hkey with rfl | rfl
  · cases hitems
  · obtain rfl := Datum.list.inj hitems
    obtain rfl := List.mem_singleton.1 hitem
    have hvar : Datum.text "x" ≠ .text "" := fun h => absurd (Datum.text.inj h) (by decide)
    exact .intro hvar (by decide)

/-- A rule that is given a new identifier, read directly and in a document. -/
theorem definitions_accepted_unnamed :
    (Datum.map unnamed).isJson = true ∧ PlainConditions unnamed ∧
      (RuleDefinition.ofDatum? "given" (.map unnamed)).isSome = true ∧
      ∃ (t : Draft) (conditions : Option ConditionGroup),
        (∀ newId, RuleDefinition.ofDatum? newId (.map unnamed) = some (t.complete newId)) ∧
        (∀ newId format, definitions .standard newId format
            (.map [(.text "rules", .list [.map unnamed])]) =
          .ok [({ t with conditions := conditions } : Draft).complete (newId 0)]) ∧
        (conditions = t.conditions ∨
          field unnamed "conditions" = .map [] ∧ t.conditions = some ⟨none, none⟩ ∧
            conditions = none) ∧
        ∀ (β : Type) (newId newId' : String),
          (Rule.ofDefinition (({ t with conditions := conditions } : Draft).complete newId) :
              Rule β).className =
            (Rule.ofDefinition (t.complete newId') : Rule β).className := by
  have haccepted : (RuleDefinition.ofDatum? "given" (.map unnamed)).isSome = true := rfl
  exact ⟨rfl, plainConditions_unnamed, haccepted,
    definitions_accepted .standard rfl plainConditions_unnamed haccepted⟩

end RuleSet

end BusinessRules

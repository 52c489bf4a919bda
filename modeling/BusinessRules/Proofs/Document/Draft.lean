import BusinessRules.Document.RuleSet

/-!
# Drafts

A rule of a document that has no identifier is given a new one, and a rule that has no name is
named after its identifier.  Nothing else of what is read depends on the new identifiers: whether
a document can be read does not, nor does any other field.  So a document stands for a list of
drafts, which are completed as soon as there are new identifiers at hand.

## Main definitions

* `Draft`: definitions that may lack an identifier and a name
* `Draft.complete`, `Draft.completeFrom`: the definitions of drafts, given new identifiers
* `Draft.ofEntries?`: reading a draft

## Main statements

* `RuleDefinition.ofEntries?_eq`: reading a definition is reading a draft and completing it
* `RuleSet.exists_drafts`: the drafts of a document
-/

namespace BusinessRules

/-- A rule definition that may lack an identifier and a name. -/
structure Draft where
  id : Option String
  name : Option String
  description : String
  priority : Int
  conditions : Option ConditionGroup
  actions : Option (List Action)
  foreach : Option String

namespace Draft

/-- The definition of a draft: an identifier that is missing is a new one, and a name that is
missing is the identifier. -/
def complete (newId : String) (t : Draft) : RuleDefinition where
  id := t.id.getD newId
  name := t.name.getD (t.id.getD newId)
  description := t.description
  priority := t.priority
  conditions := t.conditions
  actions := t.actions
  foreach := t.foreach

/-- The definitions of drafts, each with a new identifier at hand, from the one of a number on. -/
def completeFrom (newId : Nat → String) (start : Nat) (ts : List Draft) : List RuleDefinition :=
  (ts.zipIdx start).map fun (t, i) => t.complete (newId i)

/-- A text field that is missing or empty, or holds a text. -/
def filled? (d : Datum) : Option (Option String) :=
  if d.isFilled then d.asText?.map some else some none

/-- Read a draft whose conditions are known. -/
def ofEntries? (conditions : Option ConditionGroup) (entries : List (Datum × Datum)) :
    Option Draft := do
  let id ← filled? (Datum.field entries "id")
  let name ← filled? (Datum.field entries "name")
  let description ← (RuleDefinition.fieldOr entries "description" (.text "")).asText?
  let priority ← (RuleDefinition.fieldOr entries "priority" (.int 0)).asInt?
  let actions ← Datum.optional? (Datum.asList? Action.ofDatum?) (Datum.field entries "actions")
  let foreach ← Datum.optional? Datum.asText? (Datum.field entries "foreach")
  return ⟨id, name, description, priority, conditions, actions, foreach⟩

@[simp]
theorem completeFrom_cons (newId : Nat → String) (start : Nat) (t : Draft) (ts : List Draft) :
    completeFrom newId start (t :: ts) =
      t.complete (newId start) :: completeFrom newId (start + 1) ts := rfl

@[simp]
theorem length_completeFrom (newId : Nat → String) (start : Nat) (ts : List Draft) :
    (completeFrom newId start ts).length = ts.length := by
  rw [completeFrom, List.length_map, List.length_zipIdx]

theorem completeFrom_append (newId : Nat → String) (start : Nat) (ts us : List Draft) :
    completeFrom newId start (ts ++ us) =
      completeFrom newId start ts ++ completeFrom newId (start + ts.length) us := by
  rw [completeFrom, List.zipIdx_append, List.map_append]
  rfl

/-- New identifiers that begin later are those from a later number on. -/
theorem completeFrom_shift (newId : Nat → String) (count start : Nat) (ts : List Draft) :
    completeFrom (fun i => newId (count + i)) start ts =
      completeFrom newId (count + start) ts := by
  induction ts generalizing start with
  | nil => rfl
  | cons t ts ih => rw [completeFrom_cons, completeFrom_cons, ih, Nat.add_assoc]

end Draft

/-- Reading a definition is reading a draft and completing it. -/
theorem RuleDefinition.ofEntries?_eq (newId : String) (conditions : Option ConditionGroup)
    (entries : List (Datum × Datum)) :
    RuleDefinition.ofEntries? newId conditions entries =
      (Draft.ofEntries? conditions entries).map (Draft.complete newId) := by
  rw [ofEntries?, Draft.ofEntries?, Draft.filled?, Draft.filled?]
  generalize Datum.field entries "id" = id, Datum.field entries "name" = name
  -- Whether a new identifier is used, and where, shows at the two fields.
  have hnew : (Datum.text newId).asText? = some newId := rfl
  cases id.isFilled <;> cases name.isFilled <;> cases hid : id.asText? <;>
    cases hname : name.asText? <;>
      simp [hnew, hid, hname, Option.map_bind, Function.comp_def, Draft.complete]

namespace RuleSet

/-- The draft of a rule. -/
theorem exists_draft (room : Room) (d : Datum) :
    ∃ o : Outcome Draft, ∀ newId, readRule room newId d = o.map (Draft.complete newId) := by
  cases d with
  | map entries =>
    simp only [readRule]
    cases readConditions room entries with
    | error f => exact ⟨.error f, fun _ => rfl⟩
    | ok conditions =>
      cases checkActions room entries with
      | error f => exact ⟨.error f, fun _ => rfl⟩
      | ok _ =>
        by_cases hkeys : (entries.all fun e => isText e.1) = true
        · cases ht : Draft.ofEntries? conditions entries with
          | none =>
            exact ⟨.error .invalidRule, fun newId => by
              simp [hkeys, RuleDefinition.ofEntries?_eq, ht, Except.map]⟩
          | some t =>
            exact ⟨.ok t, fun newId => by
              simp [hkeys, RuleDefinition.ofEntries?_eq, ht, Except.map]⟩
        · exact ⟨.error .fieldNames, fun _ => by simp [hkeys, Except.map]⟩
  | _ => exact ⟨.error .ruleNotObject, fun _ => rfl⟩

/-- The drafts of rules, in order. -/
theorem exists_drafts_readRules (room : Room) (items : List Datum) :
    ∃ o : Outcome (List Draft), ∀ newId,
      readRules room newId items = o.map (Draft.completeFrom newId 0) := by
  have hfrom : ∃ o : Outcome (List Draft), ∀ newId start,
      (items.zipIdx start).mapM (fun item => readRule room (newId item.2) item.1) =
        o.map (Draft.completeFrom newId start) := by
    induction items with
    | nil => exact ⟨.ok [], fun _ _ => rfl⟩
    | cons item items ih =>
      obtain ⟨o, ho⟩ := exists_draft room item
      obtain ⟨os, hos⟩ := ih
      cases o with
      | error f => exact ⟨.error f, fun newId start => by simp [List.zipIdx_cons, ho]; rfl⟩
      | ok t =>
        cases os with
        | error f => exact ⟨.error f, fun newId start => by simp [List.zipIdx_cons, ho, hos]; rfl⟩
        | ok ts =>
          exact ⟨.ok (t :: ts), fun newId start => by simp [List.zipIdx_cons, ho, hos]; rfl⟩
  exact hfrom.imp fun o ho newId => ho newId 0

/-- **The drafts of a document**: what it is read as, whatever the new identifiers are. -/
theorem exists_drafts (host : Host) (format : DocumentFormat) (document : Datum) :
    ∃ o : Outcome (List Draft × List LogEntry), ∀ newId,
      load host newId format document =
        o.map fun (ts, log) => (Draft.completeFrom newId 0 ts, log) := by
  simp only [load]
  cases readDocument host format document with
  | error f => exact ⟨.error f, fun _ => rfl⟩
  | ok root =>
    dsimp only
    rcases rulesOf root with f | _ | items
    · exact ⟨.error f, fun _ => rfl⟩
    · exact ⟨.ok ([], []), fun _ => rfl⟩
    · obtain ⟨o, ho⟩ := exists_drafts_readRules host.showing items
      dsimp only
      cases o with
      | error f => exact ⟨.error f, fun newId => by rw [ho]; rfl⟩
      | ok ts =>
        exact ⟨.ok (ts, [.definitionsRead ts.length]), fun newId => by simp [ho, Except.map]⟩

end RuleSet

end BusinessRules

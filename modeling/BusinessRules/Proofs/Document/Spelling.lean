import Mathlib.Data.List.Forall2
import BusinessRules.Document.Yaml
import BusinessRules.Proofs.Document.Condition
import BusinessRules.Proofs.Engine.Naming
import BusinessRules.Proofs.Outcome

/-!
# Spellings of documents

The order in which the fields of a document stand means nothing, and neither does the way in which
a condition spells its comparison: as a field of its own or in the fields `op` and `value`, by the
first or the second spelling of the operator.

## Main definitions

* `Datum.Reordered`, `Datum.Itemwise`: mappings with their fields in another order, lists item by
  item
* `RuleSet.Respelled`: documents that differ only in their spelling

## Main statements

* `RuleSet.Respelled.readItem`: conditions that differ in spelling
* `RuleSet.Respelled.definitions`: documents that differ in spelling
-/

namespace BusinessRules

namespace Datum

/-! ## Other orders -/

variable {R : String → Datum → Datum → Prop} {S : Datum → Datum → Prop} {d d' : Datum}

/-- Mappings that are the same, or that have the same fields in another order, with values that
are related in a way that may depend on the key. -/
inductive Reordered (R : String → Datum → Datum → Prop) : Datum → Datum → Prop
  | refl (d : Datum) : Reordered R d d
  | fields {fields mid fields' : List (String × Datum)} (hnodup : (fields.map Prod.fst).Nodup)
      (hperm : fields.Perm mid)
      (hvalues : List.Forall₂ (fun e e' => e.1 = e'.1 ∧ R e.1 e.2 e'.2) mid fields') :
      Reordered R (object fields) (object fields')

/-- Data that are the same, or lists of items that are related one by one. -/
inductive Itemwise (S : Datum → Datum → Prop) : Datum → Datum → Prop
  | refl (d : Datum) : Itemwise S d d
  | items {items items' : List Datum} (h : List.Forall₂ S items items') :
      Itemwise S (.list items) (.list items')

/-- What a reader finds in mappings with the same fields in another order. -/
structure Matching (R : String → Datum → Datum → Prop) (es es' : List (Datum × Datum)) : Prop where
  field? : ∀ key, Option.Rel (R key) (Datum.field? es key) (Datum.field? es' key)
  isEmpty : es.isEmpty = es'.isEmpty
  keys : (es.all fun e => RuleSet.isText e.1) = es'.all fun e => RuleSet.isText e.1

theorem Matching.refl (hR : ∀ key d, R key d d) (es : List (Datum × Datum)) : Matching R es es := by
  refine ⟨fun key => ?_, rfl, rfl⟩
  cases Datum.field? es key with
  | none => exact .none
  | some d => exact .some (hR key d)

theorem Matching.field {es es' : List (Datum × Datum)} (h : Matching R es es')
    (hR : ∀ key d, R key d d) (key : String) :
    R key (Datum.field es key) (Datum.field es' key) := by
  rw [Datum.field, Datum.field]
  have hfield := h.field? key
  generalize Datum.field? es key = found, Datum.field? es' key = found' at hfield
  cases hfield with
  | none => exact hR key .null
  | some hd => exact hd

theorem Matching.field?_eq {es es' : List (Datum × Datum)} (h : Matching (fun _ => Eq) es es')
    (key : String) : Datum.field? es key = Datum.field? es' key := by
  have hfield := h.field? key
  generalize Datum.field? es key = found, Datum.field? es' key = found' at hfield
  cases hfield with
  | none => rfl
  | some hd => rw [hd]

/-- Reordered mappings hold the same fields; what is no mapping is not reordered. -/
theorem Reordered.cases (h : Reordered R d d') (hR : ∀ key d, R key d d) :
    (∃ es es', d = .map es ∧ d' = .map es' ∧ Matching R es es') ∨
      d = d' ∧ ∀ es, d ≠ .map es := by
  cases h with
  | refl d =>
    cases d with
    | map es => exact .inl ⟨es, es, rfl, rfl, .refl hR es⟩
    | _ => exact .inr ⟨rfl, nofun⟩
  | @fields fields mid fields' hnodup hperm hvalues =>
    refine .inl ⟨_, _, rfl, rfl, fun key => ?_, ?_, ?_⟩
    · rw [field?_entriesOf, field?_entriesOf, lookup_perm hperm hnodup]
      clear hperm
      induction hvalues with
      | nil => exact .none
      | @cons e e' _ _ he _ ih =>
        rw [List.lookup_cons, List.lookup_cons, ← he.1]
        cases hkey : key == e.1 with
        | true => exact .some (eq_of_beq hkey ▸ he.2)
        | false => exact ih
    · rw [entriesOf, entriesOf, List.isEmpty_map, List.isEmpty_map, hperm.isEmpty_eq]
      cases hvalues <;> rfl
    · rw [all_isText_entriesOf, all_isText_entriesOf]

theorem Itemwise.cases (h : Itemwise S d d') (hS : ∀ d, S d d) :
    (∃ items items', d = .list items ∧ d' = .list items' ∧ List.Forall₂ S items items') ∨
      d = d' ∧ ∀ items, d ≠ .list items := by
  cases h with
  | refl d =>
    cases d with
    | list items => exact .inl ⟨items, items, rfl, rfl, List.forall₂_same.2 fun d _ => hS d⟩
    | _ => exact .inr ⟨rfl, nofun⟩
  | items h => exact .inl ⟨_, _, rfl, rfl, h⟩

end Datum

namespace RuleSet

open Datum

/-! ## Documents in two spellings -/

/-- Conditions that are the same, or that make the same comparison and have the same other fields.
Spellings of an operator are those with one first spelling. -/
inductive RespelledItem : Datum → Datum → Prop
  | refl (d : Datum) : RespelledItem d d
  | comparing {operator operator' : String} {d : Datum} {others fields fields'}
      (h : Comparing operator d others fields) (h' : Comparing operator' d others fields')
      (hoperator : unalias (.text operator) = unalias (.text operator')) :
      RespelledItem (.object fields) (.object fields')

/-- How the values under a key of a rule's conditions may differ. -/
def RespelledItems (key : String) : Datum → Datum → Prop :=
  if key = "all" ∨ key = "any" then Itemwise RespelledItem else Eq

/-- How the values under a key of a rule may differ. -/
def RespelledField (key : String) : Datum → Datum → Prop :=
  if key = "conditions" then Reordered RespelledItems
  else if key = "actions" then Itemwise (Reordered fun _ => Eq)
  else Eq

/-- How the values under a key of a document may differ. -/
def RespelledRules (key : String) : Datum → Datum → Prop :=
  if key = "rules" then Itemwise (Reordered RespelledField) else Eq

/-- Documents that differ only in their spelling: in the order of the fields of the document, of
its rules, and of their conditions and actions, and in how a condition spells its comparison. -/
def Respelled : Datum → Datum → Prop := Reordered RespelledRules

theorem respelledItems_refl (key : String) (d : Datum) : RespelledItems key d d := by
  rw [RespelledItems]
  split
  · exact .refl d
  · rfl

theorem respelledField_refl (key : String) (d : Datum) : RespelledField key d d := by
  rw [RespelledField]
  split
  · exact .refl d
  · split
    · exact .refl d
    · rfl

theorem respelledRules_refl (key : String) (d : Datum) : RespelledRules key d d := by
  rw [RespelledRules]
  split
  · exact .refl d
  · rfl

variable {room : Room}

/-- **Conditions that differ in spelling** are read as the same condition, or not read. -/
theorem RespelledItem.readItem {d d' : Datum} (h : RespelledItem d d') :
    (readItem room d).toOption = (RuleSet.readItem room d').toOption := by
  cases h with
  | refl => rfl
  | comparing h h' hoperator =>
    simp only [RuleSet.readItem, object, h.field_var, h'.field_var, h.spelling, h'.spelling,
      lookupFault?_text, hoperator]
    split <;> rfl

theorem readItems_respelled {es es' : List (Datum × Datum)} {key : String}
    (h : Itemwise RespelledItem (field es key) (field es' key)) :
    (readItems room es key).toOption = (readItems room es' key).toOption := by
  rw [readItems, readItems]
  rcases h.cases .refl with ⟨items, items', hd, hd', hitems⟩ | ⟨hd, -⟩
  · rw [hd, hd']
    simp only [toOption_map, toOption_mapM]
    rw [mapM_congr_of_forall₂ (hitems.imp fun _ _ => RespelledItem.readItem)]
  · rw [hd]

theorem readGroup_respelled {d d' : Datum} (h : Reordered RespelledItems d d') :
    (readGroup room d).toOption = (readGroup room d').toOption := by
  rcases h.cases respelledItems_refl with ⟨es, es', rfl, rfl, hes⟩ | ⟨rfl, -⟩
  · have hall : (readItems room es "all").toOption = (readItems room es' "all").toOption :=
      readItems_respelled (hes.field respelledItems_refl "all")
    have hany : (readItems room es "any").toOption = (readItems room es' "any").toOption :=
      readItems_respelled (hes.field respelledItems_refl "any")
    simp only [readGroup_map, toOption_bind, hall, hany]
  · rfl

theorem isFilled_reordered {R : String → Datum → Datum → Prop} {d d' : Datum}
    (h : Reordered R d d') (hR : ∀ key d, R key d d) : d.isFilled = d'.isFilled := by
  rcases h.cases hR with ⟨es, es', rfl, rfl, hes⟩ | ⟨rfl, -⟩
  · rw [isFilled, isFilled, hes.isEmpty]
  · rfl

theorem isFilled_itemwise {S : Datum → Datum → Prop} {d d' : Datum}
    (h : Itemwise S d d') (hS : ∀ d, S d d) : d.isFilled = d'.isFilled := by
  rcases h.cases hS with ⟨items, items', rfl, rfl, hitems⟩ | ⟨rfl, -⟩
  · cases hitems <;> rfl
  · rfl

theorem readConditions_respelled {es es' : List (Datum × Datum)}
    (h : Matching RespelledField es es') :
    (readConditions room es).toOption = (readConditions room es').toOption := by
  have hconditions : Reordered RespelledItems (field es "conditions") (field es' "conditions") :=
    h.field respelledField_refl "conditions"
  rw [readConditions, readConditions, isFilled_reordered hconditions respelledItems_refl]
  split
  · rw [toOption_map, toOption_map, readGroup_respelled hconditions]
  · rfl

/-! ## Actions -/

theorem checkAction_reordered {d d' : Datum} (h : Reordered (fun _ => Eq) d d') :
    checkAction room d = checkAction room d' := by
  rcases h.cases fun _ _ => rfl with ⟨es, es', rfl, rfl, hes⟩ | ⟨rfl, -⟩
  · rw [checkAction, checkAction, hes.field (fun _ _ => rfl) "type"]
  · rfl

theorem ofDatum?_reordered {d d' : Datum} (h : Reordered (fun _ => Eq) d d') :
    Action.ofDatum? d = Action.ofDatum? d' := by
  rcases h.cases fun _ _ => rfl with ⟨es, es', rfl, rfl, hes⟩ | ⟨rfl, -⟩
  · simp only [Action.ofDatum?, field, hes.field?_eq]
  · rfl

theorem forM_checkAction_reordered {items items' : List Datum}
    (h : List.Forall₂ (Reordered fun _ => Eq) items items') :
    items.forM (checkAction room) = items'.forM (checkAction room) := by
  rw [List.forM_eq_forM]
  induction h with
  | nil => rfl
  | cons hitem _ ih => rw [List.forM_cons, List.forM_cons, checkAction_reordered hitem, ih]

theorem checkActions_respelled {es es' : List (Datum × Datum)}
    (h : Itemwise (Reordered fun _ => Eq) (field es "actions") (field es' "actions")) :
    checkActions room es = checkActions room es' := by
  rw [checkActions, checkActions, isFilled_itemwise h .refl]
  rcases h.cases .refl with ⟨items, items', hd, hd', hitems⟩ | ⟨hd, -⟩
  · rw [hd, hd']
    simp only [forM_checkAction_reordered hitems]
  · rw [hd]

theorem asList?_respelled {d d' : Datum} (h : Itemwise (Reordered fun _ => Eq) d d') :
    Datum.optional? (Datum.asList? Action.ofDatum?) d =
      Datum.optional? (Datum.asList? Action.ofDatum?) d' := by
  rcases h.cases .refl with ⟨items, items', rfl, rfl, hitems⟩ | ⟨rfl, -⟩
  · have hmapM := mapM_congr_of_forall₂ (hitems.imp fun _ _ => ofDatum?_reordered)
    simp only [optional?, asList?, elements?, Option.bind_some, hmapM]
  · rfl

/-! ## Rules and documents -/

theorem ofEntries?_respelled {es es' : List (Datum × Datum)} (h : Matching RespelledField es es')
    (newId : String) (conditions : Option ConditionGroup) :
    RuleDefinition.ofEntries? newId conditions es =
      RuleDefinition.ofEntries? newId conditions es' := by
  have hplain : ∀ key, key ≠ "conditions" → key ≠ "actions" → field es key = field es' key := by
    intro key hconditions hactions
    have hfield := h.field respelledField_refl key
    rwa [RespelledField, if_neg hconditions, if_neg hactions] at hfield
  have hactions := asList?_respelled (h.field respelledField_refl "actions")
  simp only [RuleDefinition.ofEntries?, RuleDefinition.fieldOr, hactions,
    hplain "id" (by decide) (by decide), hplain "name" (by decide) (by decide),
    hplain "description" (by decide) (by decide), hplain "priority" (by decide) (by decide),
    hplain "foreach" (by decide) (by decide)]

theorem readRule_respelled {d d' : Datum} (h : Reordered RespelledField d d') (newId : String) :
    (readRule room newId d).toOption = (readRule room newId d').toOption := by
  rcases h.cases respelledField_refl with ⟨es, es', rfl, rfl, hes⟩ | ⟨rfl, -⟩
  · have hconditions : (readConditions room es).toOption = (readConditions room es').toOption :=
      readConditions_respelled hes
    simp only [readRule, checkActions_respelled (hes.field respelledField_refl "actions"), hes.keys,
      ofEntries?_respelled hes]
    generalize readConditions room es = o, readConditions room es' = o' at hconditions
    cases o <;> cases o' <;> cases hconditions <;> rfl
  · rfl

theorem zipIdx_itemwise {S : Datum → Datum → Prop} {items items' : List Datum}
    (h : List.Forall₂ S items items') (start : Nat) :
    List.Forall₂ (fun p q => S p.1 q.1 ∧ p.2 = q.2) (items.zipIdx start)
      (items'.zipIdx start) := by
  induction h generalizing start with
  | nil => exact .nil
  | cons hitem _ ih =>
    rw [List.zipIdx_cons, List.zipIdx_cons]
    exact .cons ⟨hitem, rfl⟩ (ih (start + 1))

theorem readRules_respelled {items items' : List Datum}
    (h : List.Forall₂ (Reordered RespelledField) items items') (newId : Nat → String) :
    (readRules room newId items).toOption = (readRules room newId items').toOption := by
  rw [readRules, readRules, toOption_mapM, toOption_mapM]
  refine mapM_congr_of_forall₂ ((zipIdx_itemwise h 0).imp ?_)
  rintro ⟨item, i⟩ ⟨item', -⟩ ⟨hitem, rfl⟩
  exact readRule_respelled hitem (newId i)

/-- **Documents that differ in spelling** have the same definitions, or none. -/
theorem Respelled.definitions {document document' : Datum} (h : Respelled document document')
    (host : Host) (newId : Nat → String) (format : DocumentFormat) :
    (definitions host newId format document).toOption =
      (RuleSet.definitions host newId format document').toOption := by
  rcases h.cases respelledRules_refl with ⟨es, es', rfl, rfl, hes⟩ | ⟨rfl, -⟩
  · have hrules : Itemwise (Reordered RespelledField) (field es "rules") (field es' "rules") :=
      hes.field respelledRules_refl "rules"
    simp only [RuleSet.definitions, load, readDocument, rulesOf]
    rcases hrules.cases .refl with ⟨items, items', hd, hd', hitems⟩ | ⟨hd, -⟩
    · rw [hd, hd']
      simp only [toOption_map, readRules_respelled hitems]
    · rw [hd]
  · rfl

theorem exists_load_of_definitions {host : Host} {newId : Nat → String} {format : DocumentFormat}
    {document : Datum} {ds : List RuleDefinition}
    (h : definitions host newId format document = .ok ds) :
    ∃ log, load host newId format document = .ok (ds, log) := by
  rw [definitions] at h
  cases hload : load host newId format document with
  | error f =>
    rw [hload] at h
    cases h
  | ok found =>
    obtain ⟨found, log⟩ := found
    rw [hload] at h
    obtain rfl : found = ds := Except.ok.inj h
    exact ⟨log, rfl⟩

/-- **The spelling of a document does not matter.** Of two documents that differ only in their
spelling either none can be read, or both are read as the same drafts, so that their definitions
are equal but for new identifiers and the names that these stand in for.  As long as the new
identifiers are new, the engines of the two documents give the same results in every context and
leave the same contexts. -/
theorem definitions_respelled {document document' : Datum} (h : Respelled document document')
    (host : Host) (format : DocumentFormat) :
    ((∀ newId, ∃ f, definitions host newId format document = .error f) ∧
        ∀ newId, ∃ f, definitions host newId format document' = .error f) ∨
      ∃ ts : List Draft,
        (∀ newId, definitions host newId format document = .ok (Draft.completeFrom newId 0 ts) ∧
          definitions host newId format document' = .ok (Draft.completeFrom newId 0 ts)) ∧
        ∀ (β : Type) (newId newId' : Nat → String), Draft.Fresh newId ts → Draft.Fresh newId' ts →
          ∀ contexts : List (String × Context), ∃ s s' : Session β,
            Session.ofDocument host newId format document contexts = .ok s ∧
            Session.ofDocument host newId' format document' contexts = .ok s' ∧
            ∀ h env mode name,
              (s.evaluate h env mode name).1 = (s'.evaluate h env mode name).1 ∧
              ∀ other, (s.evaluate h env mode name).2.context other =
                (s'.evaluate h env mode name).2.context other := by
  obtain ⟨o, ho⟩ := exists_drafts host format document
  have hsame := fun newId => h.definitions host newId format
  cases o with
  | error f =>
    have hdefinitions : ∀ newId, definitions host newId format document = .error f :=
      fun newId => by rw [definitions, ho]; rfl
    refine .inl ⟨fun newId => ⟨f, hdefinitions newId⟩, fun newId => ?_⟩
    have hnone := hsame newId
    rw [hdefinitions] at hnone
    exact exists_error_of_toOption hnone.symm
  | ok found =>
    obtain ⟨ts, log⟩ := found
    have hdefinitions : ∀ newId,
        definitions host newId format document = .ok (Draft.completeFrom newId 0 ts) :=
      fun newId => by rw [definitions, ho]; rfl
    have hdefinitions' : ∀ newId,
        definitions host newId format document' = .ok (Draft.completeFrom newId 0 ts) := by
      intro newId
      have hsome := hsame newId
      rw [hdefinitions] at hsome
      exact eq_ok_of_toOption hsome.symm
    refine .inr ⟨ts, fun newId => ⟨hdefinitions newId, hdefinitions' newId⟩,
      fun β newId newId' hfresh hfresh' contexts => ?_⟩
    obtain ⟨log', hload'⟩ := exists_load_of_definitions (hdefinitions' newId')
    refine ⟨_, _, by rw [Session.ofDocument, ho]; rfl, by rw [Session.ofDocument, hload']; rfl,
      Session.evaluate_completed hfresh hfresh' contexts log log'⟩

/-- A document with short spellings. -/
def terse : Datum :=
  object [("version", .int 1), ("rules", .list [
    object [("id", .text "limit"),
      ("conditions", object [("all", .list [object [("var", .text "total"), (">=", .int 1)]]),
        ("any", .list [object [("op", .text "="), ("var", .text "kind"), ("value", .null)]])]),
      ("actions", .list [object [("type", .text "compute"), ("expression", .text "rate = 2")]])],
    object [("name", .text "rest"), ("priority", .int (-1))]])]

/-- The same document with other spellings, its fields in another order. -/
def wordy : Datum :=
  object [("rules", .list [
    object [("actions", .list [object [("expression", .text "rate = 2"), ("type", .text "compute")]]),
      ("conditions", object [("any", .list [object [("var", .text "kind"), ("==", .null)]]),
        ("all", .list [object [("value", .int 1), ("var", .text "total"), ("op", .text ">=")]])]),
      ("id", .text "limit")],
    object [("priority", .int (-1)), ("name", .text "rest")]]), ("version", .int 1)]

/-- The rules of both documents. -/
def limitAndRest (newId : Nat → String) : List RuleDefinition :=
  [{ id := "limit", name := "limit", description := "", priority := 0
     conditions := some ⟨some [⟨"total", .ge, .int 1⟩], some [⟨"kind", .eq, .null⟩]⟩
     actions := some [.compute "rate = 2"], foreach := none },
   { id := newId 1, name := "rest", description := "", priority := -1
     conditions := none, actions := none, foreach := none }]

/-- Identifiers of one letter, longer and longer. -/
def lettered (c : Char) (i : Nat) : String := String.ofList (List.replicate (i + 6) c)

theorem length_lettered (c : Char) (i : Nat) : (lettered c i).length = i + 6 := by
  rw [lettered, String.length_ofList, List.length_replicate]

/-- Identifiers of many letters are new where all identifiers are short. -/
theorem fresh_lettered (c : Char) {ts : List Draft}
    (h : ∀ t ∈ ts, ∀ id, t.id = some id → id.length ≤ 5) : Draft.Fresh (lettered c) ts where
  injective i j hij := by
    have hlength := congrArg String.length hij
    rw [length_lettered, length_lettered] at hlength
    exact Nat.add_right_cancel hlength
  ne_id t ht i hid := by
    have hlength := h t ht _ hid
    rw [length_lettered] at hlength
    omega

theorem respelled_wordy : Respelled terse wordy := by
  have hlimit : RespelledItem (object [("var", .text "total"), (">=", .int 1)])
      (object [("value", .int 1), ("var", .text "total"), ("op", .text ">=")]) :=
    @RespelledItem.comparing _ _ _ [("var", .text "total")] _ _
      ⟨by decide, by decide, _, .key rfl, .swap _ _ _⟩
      ⟨by decide, by decide, _, .fields, @List.perm_append_comm _ [_, _] [_]⟩ rfl
  have hkind : RespelledItem
      (object [("op", .text "="), ("var", .text "kind"), ("value", .null)])
      (object [("var", .text "kind"), ("==", .null)]) :=
    @RespelledItem.comparing _ _ _ [("var", .text "kind")] _ _
      ⟨by decide, by decide, _, .fields, .cons _ (.swap _ _ _)⟩
      ⟨by decide, by decide, _, .key rfl, .swap _ _ _⟩ rfl
  have hconditions : Reordered RespelledItems
      (object [("all", .list [object [("var", .text "total"), (">=", .int 1)]]),
        ("any", .list [object [("op", .text "="), ("var", .text "kind"), ("value", .null)]])])
      (object [("any", .list [object [("var", .text "kind"), ("==", .null)]]),
        ("all", .list [object [("value", .int 1), ("var", .text "total"), ("op", .text ">=")]])]) :=
    .fields (by decide) (.swap _ _ _) (.cons ⟨rfl, .items (.cons hkind .nil)⟩
      (.cons ⟨rfl, .items (.cons hlimit .nil)⟩ .nil))
  have hactions : Itemwise (Reordered fun _ => Eq)
      (.list [object [("type", .text "compute"), ("expression", .text "rate = 2")]])
      (.list [object [("expression", .text "rate = 2"), ("type", .text "compute")]]) :=
    .items (.cons (.fields (by decide) (.swap _ _ _) (.cons ⟨rfl, rfl⟩ (.cons ⟨rfl, rfl⟩ .nil)))
      .nil)
  refine .fields (by decide) (.swap _ _ _)
    (.cons ⟨rfl, .items (.cons ?_ (.cons ?_ .nil))⟩ (.cons ⟨rfl, rfl⟩ .nil))
  · refine .fields (by decide) (@List.reverse_perm _ [_, _, _]).symm ?_
    exact .cons ⟨rfl, hactions⟩ (.cons ⟨rfl, hconditions⟩ (.cons ⟨rfl, rfl⟩ .nil))
  · exact .fields (by decide) (.swap _ _ _) (.cons ⟨rfl, rfl⟩ (.cons ⟨rfl, rfl⟩ .nil))

/-- Two spellings of one document, under two supplies of new identifiers. -/
theorem definitions_respelled_wordy :
    Respelled terse wordy ∧
      (∀ newId, definitions .standard newId .json terse = .ok (limitAndRest newId) ∧
        definitions .standard newId .json wordy = .ok (limitAndRest newId)) ∧
      ∀ contexts : List (String × Context), ∃ s s' : Session Unit,
        Session.ofDocument .standard (lettered 'n') .json terse contexts = .ok s ∧
        Session.ofDocument .standard (lettered 'm') .json wordy contexts = .ok s' ∧
        ∀ h env mode name,
          (s.evaluate h env mode name).1 = (s'.evaluate h env mode name).1 ∧
          ∀ other, (s.evaluate h env mode name).2.context other =
            (s'.evaluate h env mode name).2.context other := by
  have hterse : ∀ newId,
      definitions .standard newId .json terse = .ok (limitAndRest newId) := fun _ => rfl
  rcases definitions_respelled respelled_wordy .standard .json with ⟨hfails, -⟩ | ⟨ts, hts, hsessions⟩
  · obtain ⟨f, hf⟩ := hfails (lettered 'n')
    rw [hterse] at hf
    cases hf
  have hcompleted : ∀ newId, Draft.completeFrom newId 0 ts = limitAndRest newId := fun newId =>
    Except.ok.inj ((hts newId).1.symm.trans (hterse newId))
  have hshort : ∀ t ∈ ts, ∀ id, t.id = some id → id.length ≤ 5 := by
    intro t ht id hid
    obtain ⟨i, hi⟩ := List.mem_iff_getElem?.1 ht
    have hmem : t.complete "" ∈ limitAndRest fun _ => "" := by
      rw [← hcompleted, Draft.completeFrom]
      exact List.mem_map.2 ⟨(t, i), List.mem_zipIdx_iff_getElem?.2 hi, rfl⟩
    have hids : ∀ d ∈ limitAndRest fun _ => "", d.id.length ≤ 5 := by decide
    have hlength := hids _ hmem
    rwa [Draft.complete, hid] at hlength
  refine ⟨respelled_wordy, fun newId => ⟨hterse newId, ?_⟩,
    hsessions Unit _ _ (fresh_lettered 'n' hshort) (fresh_lettered 'm' hshort)⟩
  rw [(hts newId).2, hcompleted]

end RuleSet

end BusinessRules

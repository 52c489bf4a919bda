import Mathlib
import BusinessRules.Proofs.Document.Condition
import BusinessRules.Proofs.Document.Json
import BusinessRules.Proofs.Document.Yaml.Node
import BusinessRules.Proofs.Outcome
import BusinessRules.Proofs.Value.Shown

/-!
# What goes wrong with documents

A document is null or blank, or it is refused for its form, or it is read rule by rule.  The reader
checks the shape of everything that it looks into before it looks into it, with these exceptions.
The keys of a rule are taken for texts.  The operator of a condition is looked up among the second
spellings whatever it is.  A message shows what was found in a document, which may not be possible.
And of a text in the notation of data interchange the numbers are converted whatever their size,
and nested data are read however deep they are.  Each of these leads to a fault of another class,
and nothing else does but the reader of texts with indentation, which may give up for any reason:
what is known of its reasons is known of the faults of documents.

## Main definitions

* `RuleSet.IsBlank`: documents that are null or blank
* `RuleSet.StrayItem`, `RuleSet.StrayRule`, `RuleSet.Stray`: the faults of other classes, and where
  they come from
* `RuleSet.strayKinds`: the other classes, but for those of the reader of texts with indentation

## Main statements

* `RuleSet.readItem_error`, `RuleSet.readConditions_error`, `RuleSet.checkActions_error`,
  `RuleSet.readRule_error`: what goes wrong with a condition, with the conditions of a rule, with
  its actions, and with a rule
* `RuleSet.readText_error`, `RuleSet.readDocument_error`: what goes wrong before there are rules
* `RuleSet.load_ok`, `RuleSet.load_error`: what a document is read as, and what goes wrong with it
-/

namespace BusinessRules

namespace Datum

/-! ## Looking up -/

mutual

theorem kind_of_lookupFault? (d : Datum) {f : Fault} (h : d.lookupFault? = some f) :
    f.kind = .type := by
  cases d with
  | tuple items =>
    rw [lookupFault?] at h
    exact kind_of_firstLookupFault? items h
  | decimal n =>
    cases n with
    | undefined negative signaling payload =>
      cases signaling with
      | true =>
        rw [lookupFault?] at h
        cases h
        rfl
      | false => simp [lookupFault?] at h
    | _ => simp [lookupFault?] at h
  | list items =>
    rw [lookupFault?] at h
    cases h
    rfl
  | set items =>
    rw [lookupFault?] at h
    cases h
    rfl
  | map entries =>
    rw [lookupFault?] at h
    cases h
    rfl
  | other o =>
    rw [lookupFault?] at h
    split at h
    · cases h
    · cases h
      rfl
  | _ => simp [lookupFault?] at h

theorem kind_of_firstLookupFault? (ds : List Datum) {f : Fault}
    (h : firstLookupFault? ds = some f) : f.kind = .type := by
  cases ds with
  | nil => simp [firstLookupFault?] at h
  | cons d ds =>
    rw [firstLookupFault?, Option.or_eq_some_iff] at h
    rcases h with h | ⟨-, h⟩
    · exact kind_of_lookupFault? d h
    · exact kind_of_firstLookupFault? ds h

end

end Datum

namespace RuleSet

open Datum

variable {entries : List (Datum × Datum)} {d : Datum} {f : Fault} {room : Room}

/-! ## Conditions -/

/-- The operator that a condition spells is what stands under its key, or a text. -/
theorem operator_of_foldl (entries : List (Datum × Datum)) (s : Spelling) :
    (entries.foldl Spelling.addEntry s).operator = s.operator ∨
      ∃ key, (entries.foldl Spelling.addEntry s).operator = .text key := by
  induction entries generalizing s with
  | nil => exact .inl rfl
  | cons e entries ih =>
    obtain ⟨k, d⟩ := e
    rw [List.foldl_cons]
    rcases ih (s.addEntry (k, d)) with hsame | htext
    · rw [hsame]
      cases k with
      | text key =>
        rw [Spelling.addEntry]
        split
        · dsimp only
          split
          · exact .inr ⟨key, rfl⟩
          · exact .inl rfl
        · exact .inl rfl
      | _ => exact .inl rfl
    · exact .inr htext

/-- The faults of other classes that a condition may lead to. -/
inductive StrayItem (room : Room) (es : List (Datum × Datum)) : Fault → Prop
  /-- The operator cannot be looked up. -/
  | operator {f : Fault} (hlookup : (field es "op").lookupFault? = some f) : StrayItem room es f
  /-- There is no variable, and the condition cannot be shown. -/
  | unnamed {f : Fault} (hvar : (field es "var").isFilled = false)
      (hshown : (Datum.map es).shown room = .error f) : StrayItem room es f
  /-- The variable cannot be shown. -/
  | named {f : Fault} (hshown : (field es "var").display room = .error f) : StrayItem room es f

/-- What goes wrong with a condition. -/
theorem readItem_error (h : readItem room d = .error f) :
    f.kind = .parse ∨ ∃ es, d = .map es ∧ StrayItem room es f := by
  cases d with
  | map es =>
    rw [readItem] at h
    dsimp only at h
    split at h
    · next hvar =>
      cases h
      rcases kind_showing .conditionWithoutVariable (fun _ => rfl)
        ((Datum.map es).shown room) with hparse | hshown
      · exact .inl hparse
      · exact .inr ⟨es, rfl, .unnamed (by simpa using hvar) hshown⟩
    · split at h
      · cases h
        rcases kind_showing .conditionWithoutOperator (fun _ => rfl)
          ((field es "var").display room) with hparse | hshown
        · exact .inl hparse
        · exact .inr ⟨es, rfl, .named hshown⟩
      · split at h
        · next hlookup =>
          cases h
          rcases operator_of_foldl es (.explicit es) with hsame | ⟨key, htext⟩
          · rw [hsame] at hlookup
            exact .inr ⟨es, rfl, .operator hlookup⟩
          · rw [htext, lookupFault?_text] at hlookup
            cases hlookup
        · split at h
          · cases h
          · cases h
            rcases kind_showing .invalidCondition (fun _ => rfl)
              ((field es "var").display room) with hparse | hshown
            · exact .inl hparse
            · exact .inr ⟨es, rfl, .named hshown⟩
  | _ =>
    cases h
    exact .inl rfl

theorem readItems_error {key : String} (h : readItems room entries key = .error f) :
    f.kind = .parse ∨ ∃ items es, field entries key = .list items ∧ .map es ∈ items ∧
      StrayItem room es f := by
  rw [readItems] at h
  split at h
  · cases h
  · next items hitems =>
    obtain ⟨item, hitem, hread⟩ := exists_mem_of_mapM_error (error_of_map h)
    rcases readItem_error hread with hparse | ⟨es, rfl, hstray⟩
    · exact .inl hparse
    · exact .inr ⟨items, es, hitems, hitem, hstray⟩
  · cases h
    exact .inl rfl

/-- What goes wrong with the conditions of a rule. -/
theorem readConditions_error (h : readConditions room entries = .error f) :
    f.kind = .parse ∨ ∃ es, IsCondition entries (.map es) ∧ StrayItem room es f := by
  rw [readConditions] at h
  split at h
  · have hgroup := error_of_map h
    cases hconditions : field entries "conditions" with
    | map group =>
      rw [hconditions, readGroup] at hgroup
      split at hgroup
      · next hall =>
        cases hgroup
        rcases readItems_error hall with hparse | ⟨items, es, hitems, hes, hstray⟩
        · exact .inl hparse
        · exact .inr ⟨es, ⟨group, items, "all", hconditions, .inl rfl, hitems, hes⟩, hstray⟩
      · split at hgroup
        · next hany =>
          cases hgroup
          rcases readItems_error hany with hparse | ⟨items, es, hitems, hes, hstray⟩
          · exact .inl hparse
          · exact .inr ⟨es, ⟨group, items, "any", hconditions, .inr rfl, hitems, hes⟩, hstray⟩
        · cases hgroup
    | _ =>
      rw [hconditions] at hgroup
      cases hgroup
      exact .inl rfl
  · cases h

/-! ## Rules -/

/-- What goes wrong with the shape of actions: their form, or that the type of one of them cannot
be shown. -/
theorem checkActions_error (h : checkActions room entries = .error f) :
    f.kind = .parse ∨ ∃ items es, field entries "actions" = .list items ∧ .map es ∈ items ∧
      (field es "type").shown room = .error f := by
  rw [checkActions] at h
  split at h
  · cases h
  · split at h
    · next items hitems =>
      obtain ⟨item, hitem, hcheck⟩ := exists_mem_of_forM_error h
      cases item with
      | map es =>
        rw [checkAction] at hcheck
        split at hcheck
        · cases hcheck
        · cases hcheck
          rcases kind_showing .unknownAction (fun _ => rfl)
            ((field es "type").shown room) with hparse | hshown
          · exact .inl hparse
          · exact .inr ⟨items, es, hitems, hitem, hshown⟩
      | _ =>
        cases hcheck
        exact .inl rfl
    · cases h
      exact .inl rfl

/-- The faults of other classes that a rule may lead to. -/
inductive StrayRule (room : Room) : Datum → Fault → Prop
  /-- A key of the rule is not a text. -/
  | keys {entries : List (Datum × Datum)} {e : Datum × Datum} (he : e ∈ entries)
      (hkey : isText e.1 = false) : StrayRule room (.map entries) .fieldNames
  /-- A condition leads to it. -/
  | condition {entries es : List (Datum × Datum)} {f : Fault}
      (hcondition : IsCondition entries (.map es)) (hstray : StrayItem room es f) :
      StrayRule room (.map entries) f
  /-- The type of an action cannot be shown. -/
  | action {entries es : List (Datum × Datum)} {items : List Datum} {f : Fault}
      (hactions : field entries "actions" = .list items) (haction : .map es ∈ items)
      (hshown : (field es "type").shown room = .error f) : StrayRule room (.map entries) f

/-- The classes of the faults that a rule may lead to, if they are no matter of form. -/
def ruleKinds : List FaultKind := [.type, .value, .recursion]

theorem mem_ruleKinds_of_unshowable (h : Unshowable room f) : f.kind ∈ ruleKinds := by
  rcases h.kind_eq with hkind | hkind <;> simp [ruleKinds, hkind]

theorem StrayItem.kind_mem {es : List (Datum × Datum)} (h : StrayItem room es f) :
    f.kind ∈ ruleKinds := by
  cases h with
  | operator hlookup =>
    rw [kind_of_lookupFault? _ hlookup]
    exact List.mem_cons_self
  | unnamed _ hshown => exact mem_ruleKinds_of_unshowable (unshowable_shown room _ hshown)
  | named hshown => exact mem_ruleKinds_of_unshowable (unshowable_display hshown)

theorem StrayRule.kind_mem (h : StrayRule room d f) : f.kind ∈ ruleKinds := by
  cases h with
  | keys => exact List.mem_cons_self
  | condition _ hstray => exact hstray.kind_mem
  | action _ _ hshown => exact mem_ruleKinds_of_unshowable (unshowable_shown room _ hshown)

/-- What goes wrong with a rule. -/
theorem readRule_error {newId : String} (h : readRule room newId d = .error f) :
    f.kind = .parse ∨ StrayRule room d f := by
  cases d with
  | map entries =>
    rw [readRule] at h
    split at h
    · next hconditions =>
      cases h
      rcases readConditions_error hconditions with hparse | ⟨es, hcondition, hstray⟩
      · exact .inl hparse
      · exact .inr (.condition hcondition hstray)
    · split at h
      · next hactions =>
        cases h
        rcases checkActions_error hactions with hparse | ⟨items, es, hitems, hes, hshown⟩
        · exact .inl hparse
        · exact .inr (.action hitems hes hshown)
      · split at h
        · next hkeys =>
          cases h
          simp only [Bool.not_eq_true', List.all_eq_false] at hkeys
          obtain ⟨e, he, hkey⟩ := hkeys
          exact .inr (.keys he (Bool.eq_false_iff.2 hkey))
        · split at h
          · cases h
          · cases h
            exact .inl rfl
  | _ =>
    cases h
    exact .inl rfl

/-! ## Documents -/

/-- A document that is null or a blank text. -/
def IsBlank (document : Datum) : Prop :=
  document = .null ∨ ∃ s, document.asText? = some s ∧ Text.isBlankText s = true

/-- The faults of other classes that a document may lead to. -/
inductive Stray (host : Host) (format : DocumentFormat) (document : Datum) : Fault → Prop
  /-- A text of data interchange that is not blank holds a number beyond bounds, or nests deeper
  than there is room. -/
  | json {s : String} {f : Fault} (hformat : format = .json) (htext : document.asText? = some s)
      (hblank : Text.isBlankText s = false) (hread : Json.read host.reading s = .error f)
      (hkind : f.kind ≠ .parse) : Stray host format document f
  /-- The reader of texts with indentation gives up for a reason of its own. -/
  | yaml {s : String} {f : Fault} (hformat : format = .yaml) (htext : document.asText? = some s)
      (hblank : Text.isBlankText s = false) (hread : host.yaml s = .error (.raised f)) :
      Stray host format document f
  /-- A rule leads to it. -/
  | rule {entries : List (Datum × Datum)} {items : List Datum} {rule : Datum} {f : Fault}
      (hroot : readDocument host format document = .ok (.map entries))
      (hrules : field entries "rules" = .list items) (hrule : rule ∈ items)
      (hstray : StrayRule host.showing rule f) : Stray host format document f

variable {host : Host} {format : DocumentFormat} {document : Datum}

/-- The classes of the faults that are no matter of form, but for those of the reader of texts with
indentation. -/
def strayKinds : List FaultKind := [.type, .value, .recursion, .invalidOperation]

theorem ruleKinds_subset : ruleKinds ⊆ strayKinds := by
  decide

theorem Stray.kind_mem {raises : FaultKind → Prop} (hyaml : host.yaml.RaisesIn raises)
    (h : Stray host format document f) :
    f.kind ∈ strayKinds ∨ format = .yaml ∧ raises f.kind := by
  cases h with
  | json _ _ _ hread hkind =>
    left
    cases Json.unreadable_read hread with
    | invalid => exact absurd rfl hkind
    | tooLong | outOfRange | tooDeep => simp [strayKinds, Fault.kind]
  | yaml hformat _ _ hread => exact .inr ⟨hformat, hyaml _ _ hread⟩
  | rule _ _ _ hstray => exact .inl (ruleKinds_subset hstray.kind_mem)

/-- What goes wrong with a text that is not blank. -/
theorem readText_error {s : String} (htext : document.asText? = some s)
    (hblank : Text.isBlankText s = false) (h : readText host format s = .error f) :
    f.kind = .parse ∨ Stray host format document f := by
  rw [readText.eq_def, if_neg (Bool.eq_false_iff.1 hblank)] at h
  cases format with
  | json =>
    by_cases hkind : f.kind = .parse
    · exact .inl hkind
    · exact .inr (.json rfl htext hblank h hkind)
  | yaml =>
    dsimp only at h
    rw [readYaml] at h
    split at h
    · cases h
    · cases h
      exact .inl rfl
    · next hread =>
      cases h
      exact .inr (.yaml rfl htext hblank hread)

theorem load_of_isBlank (h : IsBlank document) (newId : Nat → String) :
    load host newId format document = .error (.absent "document") := by
  rcases h with rfl | ⟨s, hs, hblank⟩
  · rfl
  · have hread : readDocument host format document = .error (.absent "document") := by
      cases document with
      | text t =>
        obtain rfl := Option.some.inj hs
        rw [readDocument, readText.eq_def, if_pos hblank]
      | bytes bs =>
        have hbytes : Text.ofUtf8? bs = some s := hs
        rw [readDocument, hbytes]
        dsimp only
        rw [readText.eq_def, if_pos hblank]
      | _ => cases hs
    rw [load, hread]

/-- What goes wrong before there are rules. -/
theorem readDocument_error (h : readDocument host format document = .error f) :
    IsBlank document ∧ f = .absent "document" ∨ f.kind = .parse ∨
      Stray host format document f := by
  have htext : ∀ s, document.asText? = some s → readText host format s = .error f →
      IsBlank document ∧ f = .absent "document" ∨ f.kind = .parse ∨
        Stray host format document f := by
    intro s hs hread
    by_cases hblank : Text.isBlankText s = true
    · rw [readText.eq_def, if_pos hblank] at hread
      cases hread
      exact .inl ⟨.inr ⟨s, hs, hblank⟩, rfl⟩
    · exact .inr (readText_error hs (Bool.eq_false_iff.2 hblank) hread)
  cases document with
  | null =>
    cases h
    exact .inl ⟨.inl rfl, rfl⟩
  | map entries => cases h
  | text s => exact htext s rfl h
  | bytes bs =>
    rw [readDocument] at h
    split at h
    · next s hs => exact htext s hs h
    · cases h
      exact .inr (.inl rfl)
  | _ =>
    cases h
    exact .inr (.inl rfl)

/-- The rules of a root: nothing at all, or a list; anything else is a matter of form. -/
theorem rulesOf_cases (root : Datum) :
    (∃ f, rulesOf root = .error f ∧ f.kind = .parse) ∨ ∃ entries, root = .map entries ∧
      (field entries "rules" = .null ∧ rulesOf root = .ok none ∨
        ∃ items, field entries "rules" = .list items ∧ rulesOf root = .ok (some items)) := by
  cases root with
  | map entries =>
    rw [rulesOf]
    cases hrules : field entries "rules" with
    | null => exact .inr ⟨entries, rfl, .inl ⟨hrules, rfl⟩⟩
    | list items => exact .inr ⟨entries, rfl, .inr ⟨items, hrules, rfl⟩⟩
    | _ => exact .inl ⟨_, rfl, rfl⟩
  | _ => exact .inl ⟨_, rfl, rfl⟩

/-- What a document is read as: without rules no definitions, else one for each rule, in order. -/
theorem load_ok {newId : Nat → String} {ds : List RuleDefinition} {log : List LogEntry}
    (h : load host newId format document = .ok (ds, log)) :
    ∃ entries, readDocument host format document = .ok (.map entries) ∧
      (field entries "rules" = .null ∧ ds = [] ∨
        ∃ items, field entries "rules" = .list items ∧
          List.Forall₂ (fun item d => readRule host.showing (newId item.2) item.1 = .ok d)
            items.zipIdx ds) := by
  rw [load] at h
  cases hdocument : readDocument host format document with
  | error f =>
    rw [hdocument] at h
    cases h
  | ok root =>
    rw [hdocument] at h
    rcases rulesOf_cases root with
      ⟨f, hf, -⟩ | ⟨entries, rfl, ⟨hnull, hnone⟩ | ⟨items, hitems, hsome⟩⟩
    · simp only [hf] at h
      cases h
    · simp only [hnone] at h
      cases h
      exact ⟨entries, rfl, .inl ⟨hnull, rfl⟩⟩
    · simp only [hsome] at h
      cases hread : readRules host.showing newId items with
      | error f =>
        rw [hread] at h
        cases h
      | ok found =>
        rw [hread] at h
        cases h
        exact ⟨entries, rfl, .inr ⟨items, hitems, forall₂_of_mapM_ok hread⟩⟩

/-- What goes wrong with a document. -/
theorem load_error {newId : Nat → String} (h : load host newId format document = .error f) :
    IsBlank document ∧ f = .absent "document" ∨ f.kind = .parse ∨
      Stray host format document f := by
  rw [load] at h
  cases hdocument : readDocument host format document with
  | error g =>
    rw [hdocument] at h
    cases h
    exact readDocument_error hdocument
  | ok root =>
    rw [hdocument] at h
    rcases rulesOf_cases root with
      ⟨g, hg, hparse⟩ | ⟨entries, rfl, ⟨-, hnone⟩ | ⟨items, hitems, hsome⟩⟩
    · simp only [hg] at h
      cases h
      exact .inr (.inl hparse)
    · simp only [hnone] at h
      cases h
    · simp only [hsome] at h
      obtain ⟨⟨rule, i⟩, hmem, hrule⟩ := exists_mem_of_mapM_error (error_of_map h)
      rcases readRule_error hrule with hparse | hstray
      · exact .inr (.inl hparse)
      · exact .inr (.inr (.rule hdocument hitems (List.fst_mem_of_mem_zipIdx hmem) hstray))

/-- **What becomes of a document.** If it is null or blank, it is refused as such.  Else it is read:
without rules as no definitions, else as one definition for each of its rules, in order.  Or it is
refused for its form, unless it leads to a fault of one of four other classes, or, if it is a text
with indentation, to one of a class for which the reader of such texts gives up. -/
theorem load_classified (host : Host) {raises : FaultKind → Prop}
    (hyaml : host.yaml.RaisesIn raises) (newId : Nat → String) (format : DocumentFormat)
    (document : Datum) :
    IsBlank document ∧ load host newId format document = .error (.absent "document") ∨
      ¬ IsBlank document ∧
        ((∃ entries ds log, readDocument host format document = .ok (.map entries) ∧
            load host newId format document = .ok (ds, log) ∧
            (field entries "rules" = .null ∧ ds = [] ∨
              ∃ items, field entries "rules" = .list items ∧ List.Forall₂
                (fun item d => readRule host.showing (newId item.2) item.1 = .ok d)
                items.zipIdx ds)) ∨
          ∃ f, load host newId format document = .error f ∧
            (f.kind = .parse ∨ Stray host format document f ∧
              (f.kind ∈ strayKinds ∨ format = .yaml ∧ raises f.kind))) := by
  by_cases hblank : IsBlank document
  · exact .inl ⟨hblank, load_of_isBlank hblank newId⟩
  · refine .inr ⟨hblank, ?_⟩
    cases hload : load host newId format document with
    | ok found =>
      obtain ⟨entries, hdocument, hds⟩ := load_ok hload
      exact .inl ⟨entries, found.1, found.2, hdocument, rfl, hds⟩
    | error f =>
      refine .inr ⟨f, rfl, ?_⟩
      rcases load_error hload with ⟨hnull, -⟩ | hparse | hstray
      · exact absurd hnull hblank
      · exact .inl hparse
      · exact .inr ⟨hstray, hstray.kind_mem hyaml⟩

/-- A text with a date in a thirteenth month. -/
def thirteenthMonth : String := "rules:\n- id: r1\n  description: 2001-13-45\n"

/-- The fault of a month that does not exist. -/
def invalidMonth : Fault := .foreign "ValueError" "month must be in 1..12"

/-- A reader that knows this text, and reads dates. -/
def dateReader : Yaml.Reader := fun s =>
  if s = thirteenthMonth then .error (.raised invalidMonth) else .error .malformed

theorem raisesIn_dateReader : dateReader.RaisesIn (· = .foreign "ValueError") := by
  intro s f h
  rw [dateReader] at h
  split at h
  · cases h
    rfl
  · cases h

/-- A host with this reader. -/
def dateHost : Host := { Host.standard with yaml := dateReader }

/-- A text with an escape for a number that is no code point. -/
def hugeEscape : String := "\"\\U80000000\""

/-- The fault of the date, and with the standard reader that of the escape, is the fault of the
document, and comes from the reader of the text. -/
theorem load_classified_samples :
    (load dateHost (fun _ => "new") .yaml (.text thirteenthMonth) = .error invalidMonth ∧
        Stray dateHost .yaml (.text thirteenthMonth) invalidMonth) ∧
      load .standard (fun _ => "new") .yaml (.text hugeEscape) = .error .escapeTooLarge ∧
        Stray .standard .yaml (.text hugeEscape) .escapeTooLarge := by
  have hstray : ∀ {host : Host} {raises : FaultKind → Prop} {document : Datum} {f : Fault},
      host.yaml.RaisesIn raises → load host (fun _ => "new") .yaml document = .error f →
      f.kind ≠ .nullArgument → f.kind ≠ .parse → Stray host .yaml document f := by
    intro host raises document f hyaml hload hnull hparse
    rcases load_classified host hyaml (fun _ => "new") .yaml document with
      ⟨-, hblank⟩ | ⟨-, ⟨-, ds, log, -, hok, -⟩ | ⟨g, hg, hkinds⟩⟩
    · rw [hload] at hblank
      cases hblank
      exact absurd rfl hnull
    · rw [hload] at hok
      cases hok
    · rw [hload] at hg
      cases hg
      exact (hkinds.resolve_left hparse).1
  have hdate : load dateHost (fun _ => "new") .yaml (.text thirteenthMonth) =
      .error invalidMonth := rfl
  have hescape : load .standard (fun _ => "new") .yaml (.text hugeEscape) =
      .error .escapeTooLarge := by
    have hread : Yaml.read hugeEscape = .error (.raised .escapeTooLarge) := by cbv
    rw [load, readDocument, readText.eq_def, if_neg (by decide)]
    simp only [readYaml, Host.standard, hread]
  exact ⟨⟨hdate, hstray raisesIn_dateReader hdate (by decide) (by decide)⟩, hescape,
    hstray Yaml.raisesIn_read hescape (by decide) (by decide)⟩

/-- A document with a condition whose operator is a list. -/
def listOperator : Datum :=
  object [("rules", .list [object [("id", .text "r1"), ("conditions", object [("all",
    .list [object [("var", .text "x"), ("op", .list [.text ">"]), ("value", .int 1)]])])]])]

/-- **A list in the place of an operator** is no matter of form, and the document is not blank. -/
theorem load_listOperator :
    ∃ f, load .standard (fun _ => "new") .json listOperator = .error f ∧ f.kind ≠ .parse ∧
      f.kind ≠ .nullArgument :=
  ⟨.unhashable "list", rfl, by decide, by decide⟩

end RuleSet

end BusinessRules

import BusinessRules.Proofs.Rule.Ending

/-!
# How facts are represented

Facts can hold one value in many ways: a number as a whole, a binary or a decimal one, a collection
as a list, a tuple or a set, and a text as whatever is shown like it.  Expressions, comparisons and
rules that do not iterate see values only, and bind what stores a value.  So they do the same in
facts whose data are all replaced by what stores their values, and the facts that they leave in the
two cases differ in the same way again.

Nothing is said about rules that iterate: what a loop visits is not the value of a datum, for a
range and a stream have texts as their values.

## Main definitions

* `Datum.canonical`, `Facts.canonical`: data and facts that store what expressions see

## Main statements

* `values_canonical`: names keep their values
* `canonical_assign`: a binding does the same to both facts
* `runPlain_canonical`: a run, as a run in canonical facts
* `evaluate_canonical`: what does not iterate does the same however facts are represented
-/

namespace BusinessRules

open Expression

/-! ## Data and facts -/

/-- The datum that stores the value of a datum.  A datum without a value stays as it is. -/
def Datum.canonical (d : Datum) : Datum :=
  match d.toValue with
  | .ok v => v.toDatum
  | .error _ => d

theorem Datum.toValue_canonical (d : Datum) : d.canonical.toValue = d.toValue := by
  rw [canonical]
  split
  · next v hv => rw [toValue_toDatum, hv]
  · rfl

/-- What stores a value is canonical. -/
theorem Datum.canonical_toDatum (v : Value) : v.toDatum.canonical = v.toDatum := by
  rw [canonical, toValue_toDatum]

namespace Facts

/-- The facts that store the values of all data. -/
def canonical (f : Facts) : Facts := ⟨f.bindings.map fun (n, d) => (n, d.canonical)⟩

theorem get?_canonical (f : Facts) (name : String) :
    f.canonical.get? name = (f.get? name).map Datum.canonical := by
  obtain ⟨bindings⟩ := f
  rw [get?, get?, canonical]
  induction bindings with
  | nil => rfl
  | cons entry rest ih =>
    obtain ⟨n, d⟩ := entry
    rw [List.map_cons, List.lookup_cons, List.lookup_cons]
    cases name == n with
    | false => exact ih
    | true => rfl

/-- Names keep their values. -/
theorem values_canonical (f : Facts) :
    (Context.facts f.canonical).values = (Context.facts f).values := by
  funext name
  rw [Context.values, Context.values, Context.lookup, Context.lookup, get?_canonical]
  cases f.get? name with
  | none => rfl
  | some d => simp only [Option.map_some, Datum.toValue_canonical]

theorem canonical_set (f : Facts) (name : String) (d : Datum) :
    (f.set name d).canonical = f.canonical.set name d.canonical := by
  obtain ⟨bindings⟩ := f
  rw [set, set, canonical, canonical, Facts.mk.injEq]
  induction bindings with
  | nil => rfl
  | cons entry rest ih =>
    obtain ⟨n, e⟩ := entry
    rw [setIn, List.map_cons, setIn]
    split
    · rfl
    · rw [List.map_cons, ih]

/-- A binding does the same to both facts, for it stores a value. -/
theorem canonical_assign (f : Facts) (target : Option String) (v : Value) :
    (f.assign target v).canonical = f.canonical.assign target v := by
  cases target with
  | none => rfl
  | some name => rw [assign, assign, canonical_set, Datum.canonical_toDatum]

end Facts

/-! ## Rules -/

/-- Every action does the same in canonical facts, which stay canonical. -/
theorem Action.keeps_canonical (env : Environment) (a : Action) :
    a.Keeps env fun f g => g = f.canonical :=
  keeps_of_values (fun h => by rw [h, Facts.values_canonical])
    (fun target v h => by rw [h, Facts.canonical_assign]) env a

theorem ConditionGroup.holds_canonical (group : ConditionGroup) (f : Facts) :
    group.holds (.facts f.canonical) = group.holds (.facts f) :=
  holds_congr fun _ _ => congrFun f.values_canonical _

/-- **A run in canonical facts** gives the same result and the same reports, and leaves what stores
the values of the facts that a run leaves otherwise. -/
theorem RuleDefinition.runPlain_canonical (env : Environment) (d : RuleDefinition) (f : Facts) :
    ∃ result log f', d.runPlain env (.facts f) = ⟨result, .facts f', log⟩ ∧
      d.runPlain env (.facts f.canonical) = ⟨result, .facts f'.canonical, log⟩ := by
  obtain ⟨result, log, f', g', hf', hg', rfl⟩ :=
    runPlain_of_keeps env (d := d) (fun _ _ => congrFun f.values_canonical.symm _)
      (fun a _ => a.keeps_canonical env) rfl
  exact ⟨result, log, f', hf', hg'⟩

variable {β : Type}

/-- **What does not iterate does the same however facts are represented.**  In facts, and in the
facts that store their values, an expression raises the same fault, or has the same value and binds
it alike; a condition text and a structured condition have the same truth, or raise the same fault;
and a rule that does not iterate gives the same result and reports the same, in whatever sessions it
is evaluated.  The facts that are left in the one case store the values of those left in the
other. -/
theorem Facts.evaluate_canonical (h : Handlers β) (env : Environment) (f : Facts) :
    (∀ text,
      (∃ e, evaluateExpression env (.facts f) text = .error e ∧
        evaluateExpression env (.facts f.canonical) text = .error e) ∨
      ∃ v f', evaluateExpression env (.facts f) text = .ok (v, .facts f') ∧
        evaluateExpression env (.facts f.canonical) text = .ok (v, .facts f'.canonical)) ∧
    (∀ text, evaluateCondition env (.facts f.canonical) text =
      evaluateCondition env (.facts f) text) ∧
    (∀ group : ConditionGroup, group.holds (.facts f.canonical) = group.holds (.facts f)) ∧
    ∀ (mode : Mode) (name : String) (d : RuleDefinition) (s t : Session β),
      s.context name = .facts f → t.context name = .facts f.canonical →
        ∃ result log f',
          (Rule.declarative d).evaluate h env mode name s =
            (.ok result, (s.withContext name (.facts f')).report log) ∧
          (Rule.declarative d).evaluate h env mode name t =
            (.ok result, (t.withContext name (.facts f'.canonical)).report log) := by
  refine ⟨fun text => ?_, fun text => ?_, fun group => group.holds_canonical f,
    fun mode name d s t hs ht => ?_⟩
  · rw [evaluateExpression_facts, evaluateExpression_facts, values_canonical]
    cases valueOf env (Context.facts f).values text with
    | error e => exact .inl ⟨e, rfl, rfl⟩
    | ok v =>
      refine .inr ⟨v, f.assign (target? text) v, rfl, ?_⟩
      rw [canonical_assign]
      rfl
  · rw [evaluateCondition, evaluateCondition, values_canonical]
  · obtain ⟨result, log, f', hf', hg'⟩ := d.runPlain_canonical env f
    refine ⟨result, log, f', ?_, ?_⟩
    · rw [Rule.evaluate_eq_runPlain, hs, hf']
    · rw [Rule.evaluate_eq_runPlain, ht, hg']

/-- Facts that hold a set inside a tuple, a binary number, and a range. -/
def mixedFacts : Facts :=
  ⟨[("amounts", .tuple [.int 3, .set [.float (.ofDecimal (.finite false 25 (-2)))]]),
    ("rate", .float (.ofDecimal (.finite false 25 (-2)))), ("span", .range 3)]⟩

/-- A rule that copies a collection, asks how the range is shown, and would add to the copy. -/
def copyingRule : RuleDefinition where
  id := "r"
  name := "copying"
  description := ""
  priority := 0
  conditions := some ⟨some [⟨"amounts", .eq, .list [.int 3, .tuple [.text "0.250"]]⟩], none⟩
  actions := some [.compute "copy = amounts",
    .choose "span == 'range(0, 3)'" (some "fee = rate * 2") none, .compute "total = (copy) + fee"]
  foreach := none

/-- The rule fails alike in both facts, at its third action, after it has bound two names. -/
theorem Facts.evaluate_canonicalSample :
    let s : Session Empty := .start [("order", .facts mixedFacts)]
    let t : Session Empty := .start [("order", .facts mixedFacts.canonical)]
    ∃ result log f',
      (Rule.declarative copyingRule).evaluate Session.plainHandlers [] .sync "order" s =
        (.ok result, (s.withContext "order" (.facts f')).report log) ∧
      (Rule.declarative copyingRule).evaluate Session.plainHandlers [] .sync "order" t =
        (.ok result, (t.withContext "order" (.facts f'.canonical)).report log) ∧
      result.error =
        some "Rule evaluation failed: Cannot substitute grouped value in: (copy) + fee" ∧
      f'.bindings.map Prod.fst = ["amounts", "rate", "span", "copy", "fee"] := by
  intro s t
  obtain ⟨-, -, -, hrules⟩ := Facts.evaluate_canonical Session.plainHandlers [] mixedFacts
  obtain ⟨result, log, f', hs, ht⟩ := hrules .sync "order" copyingRule s t rfl rfl
  have herror : ((Rule.declarative copyingRule).evaluate Session.plainHandlers [] .sync "order"
      s).1.map RuleResult.error =
        .ok (some "Rule evaluation failed: Cannot substitute grouped value in: (copy) + fee") := by
    decide +kernel
  have hbound : (((Rule.declarative copyingRule).evaluate Session.plainHandlers [] .sync "order"
      s).2.context "order").known.bindings.map Prod.fst =
        ["amounts", "rate", "span", "copy", "fee"] := by
    decide +kernel
  have hcontext : ((Rule.declarative copyingRule).evaluate Session.plainHandlers [] .sync "order"
      s).2.context "order" = .facts f' := by
    rw [hs]
    exact Session.context_withContext s "order" (.facts f')
  rw [hs] at herror
  rw [hcontext] at hbound
  exact ⟨result, log, f', hs, ht, Except.ok.inj herror, hbound⟩

end BusinessRules

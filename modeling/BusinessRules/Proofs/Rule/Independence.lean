import BusinessRules.Proofs.Expression.Locality
import BusinessRules.Proofs.Rule.Matching
import BusinessRules.Rule.Run

/-!
# Independent rules

A rule binds the targets of its assignments, and what it does depends on the names that its texts
and conditions mention.  Two rules neither of which binds a name that the other one binds or
mentions can be run in either order: each gives the same result, and the facts that are left are
the same, also if a rule is skipped or fails midway.

## Main definitions

* `Expression.mentions`: the identifiers of a text
* `RuleDefinition.targets`, `RuleDefinition.mentions`: what a rule may bind, and what it may read
* `RuleDefinition.Spaced`: a rule in whose texts groups touch nothing
* `RuleDefinition.Independent`: two rules neither of which binds what the other one uses
* `Facts.AgreeOff`: facts that bind the same data, except for some names
* `Facts.Leads`: facts before and after a run that binds some names only
* `Action.Keeps`: an action that keeps a relation of facts

## Main statements

* `runPlain_of_keeps`: a run whose actions keep a relation of facts keeps it
* `runPlain_congr`: a run does the same whatever names that it ignores stand for
* `runPlain_commute`: independent rules can be run in either order
-/

namespace BusinessRules

open Expression

/-! ## Facts -/

namespace Facts

/-- Facts that bind the same data, except for some names. -/
def AgreeOff (names : List String) (f g : Facts) : Prop := ∀ n, n ∉ names → f.get? n = g.get? n

/-- Facts none of whose numbers is infinite or undefined. -/
def IsFinite (f : Facts) : Prop := NamesFinite (Context.facts f).values

/-- Facts before and after a run that binds some names only, and finite numbers only if it finds no
others. -/
structure Leads (names : List String) (f f' : Facts) : Prop where
  agree : AgreeOff names f f'
  finite : f.IsFinite → f'.IsFinite

/-- Bind the value of an expression to its target, if it has one. -/
def assign (f : Facts) (target : Option String) (v : Value) : Facts :=
  match target with
  | none => f
  | some name => f.set name v.toDatum

variable {names names' : List String} {f f' g g' h : Facts}

theorem AgreeOff.refl (names : List String) (f : Facts) : AgreeOff names f f := fun _ _ => rfl

theorem AgreeOff.symm (hfg : AgreeOff names f g) : AgreeOff names g f :=
  fun n hn => (hfg n hn).symm

theorem AgreeOff.trans (hfg : AgreeOff names f g) (hgh : AgreeOff names g h) :
    AgreeOff names f h :=
  fun n hn => (hfg n hn).trans (hgh n hn)

theorem AgreeOff.mono (hfg : AgreeOff names f g) (hsubset : names ⊆ names') :
    AgreeOff names' f g :=
  fun n hn => hfg n fun hmem => hn (hsubset hmem)

theorem AgreeOff.set (hfg : AgreeOff names f g) (name : String) (d : Datum) :
    AgreeOff names (f.set name d) (g.set name d) := by
  intro n hn
  by_cases hname : n = name
  · rw [hname, get?_set_self, get?_set_self]
  · rw [get?_set_of_ne _ _ hname, get?_set_of_ne _ _ hname, hfg n hn]

theorem AgreeOff.assign (hfg : AgreeOff names f g) (target : Option String) (v : Value) :
    AgreeOff names (f.assign target v) (g.assign target v) := by
  cases target with
  | none => exact hfg
  | some name => exact hfg.set name v.toDatum

theorem isFinite_iff :
    f.IsFinite ↔ ∀ n d x, f.get? n = some d → d.toValue = .ok (.number x) → x.IsFinite := by
  constructor
  · intro hf n d x hd hx
    have hbound : (Context.facts f).lookup n = .ok (some d) := congrArg Except.ok hd
    refine hf n x ?_
    rw [Context.values_of_lookup hbound, hx]
    rfl
  · intro hf n x hx
    obtain ⟨d, hd, hvalue⟩ := Context.exists_of_values hx
    exact hf n d x (Except.ok.inj hd) hvalue

theorem IsFinite.of_agreeOff (hf : f.IsFinite) (hfg : AgreeOff [] f g) : g.IsFinite := by
  rw [isFinite_iff] at hf ⊢
  exact fun n d x hd => hf n d x ((hfg n List.not_mem_nil).trans hd)

namespace Leads

theorem refl (names : List String) (f : Facts) : Leads names f f := ⟨.refl names f, id⟩

theorem trans (hf : Leads names f g) (hg : Leads names g h) : Leads names f h :=
  ⟨hf.agree.trans hg.agree, hg.finite ∘ hf.finite⟩

theorem mono (hf : Leads names f f') (hsubset : names ⊆ names') : Leads names' f f' :=
  ⟨hf.agree.mono hsubset, hf.finite⟩

theorem set (f : Facts) (name : String) {d : Datum}
    (hd : f.IsFinite → ∀ x, d.toValue = .ok (.number x) → x.IsFinite) :
    Leads [name] f (f.set name d) := by
  constructor
  · intro n hn
    rw [get?_set_of_ne _ _ fun hname => hn (List.mem_singleton.2 hname)]
  · intro hf
    rw [isFinite_iff] at hf ⊢
    intro n e x he hx
    by_cases hname : n = name
    · rw [hname, get?_set_self, Option.some.injEq] at he
      exact hd (isFinite_iff.2 hf) x (he ▸ hx)
    · rw [get?_set_of_ne _ _ hname] at he
      exact hf n e x he hx

theorem assign (f : Facts) (target : Option String) {v : Value}
    (hv : f.IsFinite → ∀ x, v = .number x → x.IsFinite) :
    Leads target.toList f (f.assign target v) := by
  cases target with
  | none => exact .refl _ f
  | some name =>
    refine .set f name fun hf x hx => hv hf x ?_
    rwa [Datum.toValue_toDatum, Except.ok.injEq] at hx

end Leads

end Facts

/-! ## Expressions -/

namespace Expression

/-- The identifiers that a text mentions. -/
def mentions (text : String) : List String := (identifiers (mask text.toList)).map String.ofList

/-- A condition whose truth does not depend on what some names stand for. -/
def ConditionIgnores (names : List String) (text : String) : Prop :=
  ∀ env (f g : Facts), f.IsFinite → f.AgreeOff names g →
    evaluateCondition env (.facts f) text = evaluateCondition env (.facts g) text

/-- An expression whose value does not depend on what some names stand for. -/
def ValueIgnores (names : List String) (text : String) : Prop :=
  ∀ env (f g : Facts), f.IsFinite → f.AgreeOff names g →
    valueOf env (Context.facts f).values text = valueOf env (Context.facts g).values text

theorem values_of_agreeOff {names : List String} {f g : Facts} (h : f.AgreeOff names g) {n : String}
    (hn : n ∉ names) : (Context.facts f).values n = (Context.facts g).values n := by
  rw [Context.values, Context.values, Context.lookup, Context.lookup, h n hn]

/-- Facts that bind the same data give names the same values. -/
theorem values_eq_of_agreeOff {f g : Facts} (h : f.AgreeOff [] g) :
    (Context.facts f).values = (Context.facts g).values :=
  funext fun _ => values_of_agreeOff h List.not_mem_nil

theorem agrees_of_agreeOff {names : List String} {f g : Facts} (h : f.AgreeOff names g)
    (hnames : ∀ n ∈ names, isIdentifier n.toList = true) {text : String}
    (hmentions : ∀ n ∈ names, n ∉ mentions text) :
    Agrees (mask text.toList) (Context.facts f).values (Context.facts g).values := by
  intro t _ ht
  refine values_of_agreeOff h fun hmem => hmentions _ hmem ?_
  have hname := hnames _ hmem
  rw [String.toList_ofList] at hname
  exact List.mem_map_of_mem (ht hname)

theorem isIdentifier_of_target? {text name : String} (h : target? text = some name) :
    isIdentifier name.toList = true := by
  rw [target?] at h
  split at h
  · next target right hstatement =>
    cases h
    rw [String.toList_ofList]
    obtain ⟨-, -, hname, -⟩ := exists_of_assign hstatement
    exact hname
  · cases h

theorem target?_of_isBlankText {text : String} (h : Text.isBlankText text = true) :
    target? text = none := by
  have htrim : Text.trim text.toList = [] := Text.trim_blanks (List.all_eq_true.1 h)
  rw [target?, htrim]
  rfl

/-- An expression computes its value and binds it to its target. -/
theorem evaluateExpression_facts (env : Environment) (f : Facts) (text : String) :
    evaluateExpression env (.facts f) text =
      (valueOf env (Context.facts f).values text).map fun v =>
        (v, .facts (f.assign (target? text) v)) := by
  rw [evaluateExpression, valueOf]
  split
  · next hblank =>
    rw [target?_of_isBlankText hblank]
    rfl
  · cases env.precision with
    | error e => rfl
    | ok p =>
      rw [source, target?]
      cases Statement.ofText text (Text.trim text.toList) with
      | error e => rfl
      | ok statement =>
        cases statement with
        | compute cs =>
          change _ = Except.map _ (evaluateArithmetic p (Context.facts f).values cs)
          simp only [Statement.run]
          cases evaluateArithmetic p (Context.facts f).values cs <;> rfl
        | assign target right =>
          change _ = Except.map _ (evaluateArithmetic p (Context.facts f).values right)
          simp only [Statement.run]
          cases evaluateArithmetic p (Context.facts f).values right <;> rfl

/-- Every text ignores what it does not mention, if its groups touch nothing. -/
theorem conditionIgnores {names : List String} (hnames : ∀ n ∈ names, isIdentifier n.toList = true)
    {text : String} (hapart : Apart (mask text.toList))
    (hmentions : ∀ n ∈ names, n ∉ mentions text) : ConditionIgnores names text :=
  fun env _ _ hf hfg => evaluateCondition_congr env hf hapart
    (agrees_of_agreeOff hfg hnames hmentions)

theorem valueIgnores {names : List String} (hnames : ∀ n ∈ names, isIdentifier n.toList = true)
    {text : String} (hapart : ∀ cs, source text = .ok cs → Apart (mask cs))
    (hmentions : ∀ n ∈ names, n ∉ mentions text) : ValueIgnores names text :=
  fun env _ _ hf hfg => valueOf_congr env hf hapart (agrees_of_agreeOff hfg hnames hmentions)

end Expression

/-! ## Actions -/

namespace Action

/-- The expressions of an action. -/
def expressions : Action → List String
  | compute expression => [expression]
  | choose _ yes no => yes.toList ++ no.toList

/-- The conditions of an action. -/
def conditions : Action → List String
  | compute _ => []
  | choose condition _ _ => [condition]

/-- The names that an action may bind. -/
def targets (a : Action) : List String := a.expressions.filterMap target?

/-- An action that does the same whatever some names stand for. -/
structure Ignores (names : List String) (a : Action) : Prop where
  conditions : ∀ text ∈ a.conditions, ConditionIgnores names text
  expressions : ∀ text ∈ a.expressions, ValueIgnores names text

theorem mem_targets {a : Action} {text : String} (h : text ∈ a.expressions) :
    (target? text).toList ⊆ a.targets := by
  intro n hn
  exact List.mem_filterMap.2 ⟨text, h, Option.mem_toList.1 hn⟩

/-- An empty expression does nothing, as any blank one. -/
theorem evaluate_some (env : Environment) (context : Context) (text : String) :
    evaluate env context (some text) = (evaluateExpression env context text).map Prod.snd := by
  rw [evaluate]
  split
  · next hempty =>
    rw [String.isEmpty_iff.1 hempty]
    rfl
  · rfl

/-- A relation between facts that an action keeps: it finds the same truths and values in related
facts, which stay related when it binds a value. -/
structure Keeps (env : Environment) (R : Facts → Facts → Prop) (a : Action) : Prop where
  conditions : ∀ text ∈ a.conditions, ∀ f g, R f g →
    evaluateCondition env (.facts f) text = evaluateCondition env (.facts g) text
  expressions : ∀ text ∈ a.expressions, ∀ f g, R f g →
    valueOf env (Context.facts f).values text = valueOf env (Context.facts g).values text
  assign : ∀ text ∈ a.expressions, ∀ f g v, R f g →
    valueOf env (Context.facts f).values text = .ok v →
      R (f.assign (target? text) v) (g.assign (target? text) v)

/-- A relation between facts that give names the same values is kept if bindings keep it. -/
theorem keeps_of_values {R : Facts → Facts → Prop}
    (hvalues : ∀ {f g}, R f g → (Context.facts f).values = (Context.facts g).values)
    (hassign : ∀ {f g} target v, R f g → R (f.assign target v) (g.assign target v))
    (env : Environment) (a : Action) : a.Keeps env R := by
  refine ⟨fun text _ f g hfg => ?_, fun text _ f g hfg => ?_,
    fun text _ f g v hfg _ => hassign _ v hfg⟩
  · rw [evaluateCondition, evaluateCondition, hvalues hfg]
  · rw [hvalues hfg]

/-- Facts without ignored names are kept alike, and targets only are bound in them. -/
theorem Ignores.keeps {env : Environment} {names targets : List String} {a : Action} {f₀ : Facts}
    (ha : a.Ignores names) (htargets : a.targets ⊆ targets) :
    a.Keeps env fun f g => f.IsFinite ∧ f.AgreeOff names g ∧ f₀.Leads targets f := by
  refine ⟨fun text htext f g h => ha.conditions text htext env f g h.1 h.2.1,
    fun text htext f g h => ha.expressions text htext env f g h.1 h.2.1, ?_⟩
  rintro text htext f g v ⟨hf, hfg, hleads⟩ hv
  have hassign : f.Leads (target? text).toList (f.assign (target? text) v) :=
    .assign f _ fun hf => finite_of_valueOf hf hv
  exact ⟨hassign.finite hf, hfg.assign _ v,
    hleads.trans (hassign.mono fun n hn => htargets (mem_targets htext hn))⟩

/-- **What an action does in related facts**: it fails in both alike, or leaves related facts. -/
theorem Keeps.run {env : Environment} {R : Facts → Facts → Prop} {a : Action} (ha : a.Keeps env R)
    {f g : Facts} (hfg : R f g) :
    (∃ e, a.run env (.facts f) = .error e ∧ a.run env (.facts g) = .error e) ∨
      ∃ f' g', a.run env (.facts f) = .ok (.facts f') ∧ a.run env (.facts g) = .ok (.facts g') ∧
        R f' g' := by
  have hexpression : ∀ text ∈ a.expressions,
      (∃ e, (evaluateExpression env (.facts f) text).map Prod.snd = .error e ∧
        (evaluateExpression env (.facts g) text).map Prod.snd = .error e) ∨
      ∃ f' g', (evaluateExpression env (.facts f) text).map Prod.snd = .ok (.facts f') ∧
        (evaluateExpression env (.facts g) text).map Prod.snd = .ok (.facts g') ∧ R f' g' := by
    intro text htext
    rw [evaluateExpression_facts, evaluateExpression_facts,
      ← ha.expressions text htext f g hfg]
    cases hv : valueOf env (Context.facts f).values text with
    | error e => exact .inl ⟨e, rfl, rfl⟩
    | ok v => exact .inr ⟨_, _, rfl, rfl, ha.assign text htext f g v hfg hv⟩
  cases a with
  | compute text => exact hexpression text (List.mem_singleton_self text)
  | choose condition yes no =>
    rw [Action.run, Action.run]
    split
    · exact .inr ⟨f, g, rfl, rfl, hfg⟩
    · rw [← ha.conditions condition (List.mem_singleton_self _) f g hfg]
      cases evaluateCondition env (.facts f) condition with
      | error e => exact .inl ⟨e, rfl, rfl⟩
      | ok holds =>
        have hbranch : ∀ text, (if holds then yes else no) = some text →
            text ∈ (choose condition yes no).expressions := by
          intro text htext
          rw [Action.expressions, List.mem_append, Option.mem_toList, Option.mem_toList]
          split at htext
          · exact .inl htext
          · exact .inr htext
        simp only
        generalize (if holds then yes else no) = chosen at hbranch
        cases chosen with
        | none => exact .inr ⟨f, g, rfl, rfl, hfg⟩
        | some text =>
          rw [evaluate_some, evaluate_some]
          exact hexpression text (hbranch text rfl)

end Action

/-- **What a list of actions does in related facts**: it ends alike and leaves related facts. -/
theorem runActions_of_keeps {env : Environment} {R : Facts → Facts → Prop} {actions : List Action}
    (hactions : ∀ a ∈ actions, a.Keeps env R) {f g : Facts} (hfg : R f g) :
    ∃ f' g' fault, runActions env (.facts f) actions = (.facts f', fault) ∧
      runActions env (.facts g) actions = (.facts g', fault) ∧ R f' g' := by
  induction actions generalizing f g with
  | nil => exact ⟨f, g, none, rfl, rfl, hfg⟩
  | cons a rest ih =>
    rw [List.forall_mem_cons] at hactions
    simp only [runActions]
    rcases hactions.1.run hfg with ⟨e, hfe, hge⟩ | ⟨f₁, g₁, hfa, hga, hfg₁⟩
    · rw [hfe, hge]
      exact ⟨f, g, some e, rfl, rfl, hfg⟩
    · rw [hfa, hga]
      exact ih hactions.2 hfg₁

/-! ## Rules -/

/-- A comparison depends on the value of the name that it is about. -/
theorem ConditionItem.holds_congr {item : ConditionItem} {f g : Facts}
    (h : (Context.facts f).values item.name = (Context.facts g).values item.name) :
    item.holds (.facts f) = item.holds (.facts g) := by
  have hvalue : ∀ f : Facts, item.holds (.facts f) =
      match (Context.facts f).values item.name with
      | .error e => .error e
      | .ok none => .ok false
      | .ok (some v) => item.value.toValue.bind (Value.compareWith item.comparison v) := by
    intro f
    rw [holds, Context.values, Context.lookup]
    cases f.get? item.name with
    | none => rfl
    | some d =>
      simp only [Datum.compareWith]
      cases d.toValue <;> rfl
  rw [hvalue, hvalue, h]

namespace ConditionGroup

/-- Comparisons depend on the values of the names that they are about. -/
theorem holds_congr {group : ConditionGroup} {f g : Facts}
    (hitems : ∀ item ∈ group.items,
      (Context.facts f).values item.name = (Context.facts g).values item.name) :
    group.holds (.facts f) = group.holds (.facts g) := by
  have hitem : ∀ item ∈ group.items, item.holds (.facts f) = item.holds (.facts g) :=
    fun item hitem => ConditionItem.holds_congr (hitems item hitem)
  have hall : group.allHold (.facts f) = group.allHold (.facts g) := by
    rw [allHold, allHold, allOf_eq_testWhile, allOf_eq_testWhile]
    refine testWhile_congr fun before item after hsplit _ => hitem item ?_
    exact List.mem_append_left _ (hsplit ▸ List.mem_append_right _ List.mem_cons_self)
  have hany : group.anyHolds (.facts f) = group.anyHolds (.facts g) := by
    rw [anyHolds, anyHolds]
    cases hlist : group.any.getD [] with
    | nil => rfl
    | cons first rest =>
      simp only [anyOf_eq_testWhile]
      refine testWhile_congr fun before item after hsplit _ => hitem item ?_
      rw [items, hlist, hsplit]
      simp
  rw [holds, holds, hall, hany]

end ConditionGroup

namespace RuleDefinition

/-- The comparisons of a rule. -/
def items (d : RuleDefinition) : List ConditionItem := (d.conditions.map (·.items)).getD []

/-- The conditions in the actions of a rule. -/
def conditionTexts (d : RuleDefinition) : List String :=
  (d.actions.getD []).flatMap Action.conditions

/-- The expressions in the actions of a rule. -/
def expressions (d : RuleDefinition) : List String :=
  (d.actions.getD []).flatMap Action.expressions

/-- The names that a rule may bind. -/
def targets (d : RuleDefinition) : List String := d.expressions.filterMap target?

/-- The names that a rule mentions: in its texts, or as the facts of its comparisons. -/
def mentions (d : RuleDefinition) : List String :=
  (d.conditionTexts ++ d.expressions).flatMap Expression.mentions ++ d.items.map (·.name)

/-- A rule in whose texts groups touch neither names nor each other. -/
structure Spaced (d : RuleDefinition) : Prop where
  conditions : ∀ text ∈ d.conditionTexts, Apart (mask text.toList)
  expressions : ∀ text ∈ d.expressions, ∀ cs, source text = .ok cs → Apart (mask cs)

/-- Two rules neither of which binds a name that the other one binds or mentions. -/
structure Independent (a b : RuleDefinition) : Prop where
  left : ∀ n ∈ a.targets, n ∉ b.targets ∧ n ∉ b.mentions
  right : ∀ n ∈ b.targets, n ∉ a.targets ∧ n ∉ a.mentions

/-- A rule that does the same whatever some names stand for. -/
structure Ignores (names : List String) (d : RuleDefinition) : Prop where
  items : ∀ item ∈ d.items, item.name ∉ names
  actions : ∀ a ∈ d.actions.getD [], a.Ignores names

variable {names : List String} {d a b : RuleDefinition} {f g : Facts}

instance (a b : RuleDefinition) : Decidable (a.Independent b) :=
  decidable_of_iff ((∀ n ∈ a.targets, n ∉ b.targets ∧ n ∉ b.mentions) ∧
    ∀ n ∈ b.targets, n ∉ a.targets ∧ n ∉ a.mentions)
    ⟨fun h => ⟨h.1, h.2⟩, fun h => ⟨h.left, h.right⟩⟩

/-- Groups touch nothing if no parenthesis does. -/
theorem Spaced.of_isChain
    (hconditions : ∀ text ∈ d.conditionTexts, (mask text.toList).IsChain MayPrecede)
    (hexpressions : ∀ text ∈ d.expressions, ∀ cs ∈ (source text).toOption,
      (mask cs).IsChain MayPrecede) : d.Spaced := by
  refine ⟨fun text htext => apart_of_isChain (hconditions text htext), fun text htext cs hcs => ?_⟩
  exact apart_of_isChain (hexpressions text htext cs (by rw [hcs]; rfl))

theorem isIdentifier_of_mem_targets {n : String} (h : n ∈ d.targets) :
    isIdentifier n.toList = true := by
  obtain ⟨text, -, htext⟩ := List.mem_filterMap.1 h
  exact isIdentifier_of_target? htext

/-- A rule in whose texts groups touch nothing ignores what it does not mention. -/
theorem Spaced.ignores (hd : d.Spaced) (hnames : ∀ n ∈ names, isIdentifier n.toList = true)
    (hmentions : ∀ n ∈ names, n ∉ d.mentions) : d.Ignores names := by
  have htext : ∀ text ∈ d.conditionTexts ++ d.expressions, ∀ n ∈ names,
      n ∉ Expression.mentions text :=
    fun text htext n hn hmem => hmentions n hn
      (List.mem_append_left _ (List.mem_flatMap.2 ⟨text, htext, hmem⟩))
  refine ⟨fun item hitem hmem => hmentions _ hmem
    (List.mem_append_right _ (List.mem_map_of_mem hitem)), fun a ha => ⟨fun text ht => ?_,
      fun text ht => ?_⟩⟩
  · have hmem : text ∈ d.conditionTexts := List.mem_flatMap.2 ⟨a, ha, ht⟩
    exact conditionIgnores hnames (hd.conditions text hmem)
      (htext text (List.mem_append_left _ hmem))
  · have hmem : text ∈ d.expressions := List.mem_flatMap.2 ⟨a, ha, ht⟩
    exact valueIgnores hnames (hd.expressions text hmem) (htext text (List.mem_append_right _ hmem))

/-- **What a run does in related facts**, if its comparisons and actions see no difference. -/
theorem runPlain_of_keeps (env : Environment) {R : Facts → Facts → Prop}
    (hitems : ∀ item ∈ d.items,
      (Context.facts f).values item.name = (Context.facts g).values item.name)
    (hactions : ∀ a ∈ d.actions.getD [], a.Keeps env R) (hfg : R f g) :
    ∃ result log f' g', d.runPlain env (.facts f) = ⟨result, .facts f', log⟩ ∧
      d.runPlain env (.facts g) = ⟨result, .facts g', log⟩ ∧ R f' g' := by
  have hconditions : (d.conditions.map (·.holds (.facts f))).getD (.ok true) =
      (d.conditions.map (·.holds (.facts g))).getD (.ok true) := by
    cases hgroup : d.conditions with
    | none => rfl
    | some group =>
      rw [items, hgroup] at hitems
      exact ConditionGroup.holds_congr hitems
  rw [runPlain, runPlain, ← hconditions]
  generalize (d.conditions.map (·.holds (.facts f))).getD (.ok true) = holds
  rcases holds with e | _ | _
  · exact ⟨_, _, f, g, rfl, rfl, hfg⟩
  · exact ⟨_, _, f, g, rfl, rfl, hfg⟩
  · obtain ⟨f', g', fault, hf', hg', hfg'⟩ := runActions_of_keeps hactions hfg
    simp only [hf', hg']
    cases fault with
    | none => exact ⟨_, _, f', g', rfl, rfl, hfg'⟩
    | some e => exact ⟨_, _, f', g', rfl, rfl, hfg'⟩

/-- **What a run does**: the same whatever ignored names stand for, and it binds targets only. -/
theorem runPlain_congr (env : Environment) (hd : d.Ignores names) (hf : f.IsFinite)
    (hfg : f.AgreeOff names g) :
    ∃ result log f' g', d.runPlain env (.facts f) = ⟨result, .facts f', log⟩ ∧
      d.runPlain env (.facts g) = ⟨result, .facts g', log⟩ ∧ f'.AgreeOff names g' ∧
        f.Leads d.targets f' := by
  have htargets : ∀ a ∈ d.actions.getD [], a.targets ⊆ d.targets := by
    intro a ha n hn
    obtain ⟨text, htext, hn⟩ := List.mem_filterMap.1 hn
    exact List.mem_filterMap.2 ⟨text, List.mem_flatMap.2 ⟨a, ha, htext⟩, hn⟩
  obtain ⟨result, log, f', g', hf', hg', -, hfg', hleads⟩ :=
    runPlain_of_keeps env (fun item hitem => values_of_agreeOff hfg (hd.items item hitem))
      (fun a ha => (hd.actions a ha).keeps (htargets a ha)) ⟨hf, hfg, .refl _ f⟩
  exact ⟨result, log, f', g', hf', hg', hfg', hleads⟩

/-- Nothing depends on the order in which facts were bound. -/
theorem ignores_nil (d : RuleDefinition) : d.Ignores [] := by
  refine ⟨fun _ _ => List.not_mem_nil, fun a _ => ⟨fun text _ env f g _ hfg => ?_,
    fun text _ env f g _ hfg => ?_⟩⟩
  · rw [evaluateCondition, evaluateCondition, values_eq_of_agreeOff hfg]
  · rw [values_eq_of_agreeOff hfg]

/-- What an iteration leaves behind does not depend on that order either. -/
theorem runEach_congr (env : Environment) (d : RuleDefinition) (name : String)
    (hfg : f.AgreeOff [] g) :
    (d.runEach env (.facts f) name).result = (d.runEach env (.facts g) name).result ∧
      ∃ f' g', (d.runEach env (.facts f) name).context = .facts f' ∧
        (d.runEach env (.facts g) name).context = .facts g' ∧ f'.AgreeOff [] g' ∧
          (f.IsFinite → f'.IsFinite) := by
  have hcollection : (Context.facts g).collection name = (Context.facts f).collection name := by
    rw [Context.collection, Context.collection, hfg name List.not_mem_nil]
  have hcount : ∀ elements, (d.visitAll env f elements).1 = (d.visitAll env g elements).1 := by
    intro elements
    rw [visitAll, visitAll]
    cases d.actions <;> rfl
  have hafter : ∀ c, ∃ f' g', (Context.facts f).afterLoop name c = .facts f' ∧
      (Context.facts g).afterLoop name c = .facts g' ∧ f'.AgreeOff [] g' ∧
        (f.IsFinite → f'.IsFinite) := by
    intro c
    cases c with
    | stream shown rest =>
      -- What is left of a stream is no number.
      have hleads : f.Leads [name] (f.set name (.stream shown [])) :=
        .set f name fun _ x hx => by cases hx
      exact ⟨_, _, rfl, rfl, hfg.set name _, hleads.finite⟩
    | _ => exact ⟨f, g, rfl, rfl, hfg, fun hf => hf⟩
  rw [runEach, runEach, hcollection, Context.collection]
  simp only
  cases ((f.get? name).filter _).bind _ with
  | none => exact ⟨rfl, f, g, rfl, rfl, hfg, fun hf => hf⟩
  | some found =>
    obtain ⟨c, elements⟩ := found
    exact ⟨congrArg (fun n : Nat => RuleResult.ok ⟨[("iterations", .int n)]⟩ 0) (hcount elements),
      hafter c⟩

/-- **Independent rules can be run in either order.** -/
theorem runPlain_commute (env : Environment) (ha : a.Spaced) (hb : b.Spaced)
    (h : a.Independent b) (hf : f.IsFinite) (hfg : f.AgreeOff [] g) :
    ∃ ra rb la lb fa fab gb gba,
      a.runPlain env (.facts f) = ⟨ra, .facts fa, la⟩ ∧
      b.runPlain env (.facts fa) = ⟨rb, .facts fab, lb⟩ ∧
      b.runPlain env (.facts g) = ⟨rb, .facts gb, lb⟩ ∧
      a.runPlain env (.facts gb) = ⟨ra, .facts gba, la⟩ ∧
      fab.AgreeOff [] gba ∧ fab.IsFinite := by
  have hignoresa : a.Ignores b.targets :=
    ha.ignores (fun n hn => isIdentifier_of_mem_targets hn) fun n hn => (h.right n hn).2
  have hignoresb : b.Ignores a.targets :=
    hb.ignores (fun n hn => isIdentifier_of_mem_targets hn) fun n hn => (h.left n hn).2
  obtain ⟨ra, la, fa, -, hfa, -, -, hleadsa⟩ :=
    runPlain_congr env a.ignores_nil hf (.refl [] f)
  obtain ⟨rb, lb, gb, -, hgb, -, -, hleadsb⟩ :=
    runPlain_congr env b.ignores_nil (hf.of_agreeOff hfg) (.refl [] g)
  -- Each of the two is run again after the other one.
  obtain ⟨ra', la', gba, fa', hgba, hfa', hagreea, hleadsba⟩ :=
    runPlain_congr env hignoresa (hleadsb.finite (hf.of_agreeOff hfg))
      (hleadsb.agree.symm.trans (hfg.symm.mono (List.nil_subset _)))
  obtain ⟨rb', lb', fab, gb', hfab, hgb', hagreeb, hleadsab⟩ :=
    runPlain_congr env hignoresb (hleadsa.finite hf)
      (hleadsa.agree.symm.trans (hfg.mono (List.nil_subset _)))
  rw [hfa] at hfa'
  rw [hgb] at hgb'
  cases hfa'
  cases hgb'
  refine ⟨ra, rb, la, lb, fa, fab, gb, gba, hfa, hfab, hgb, hgba, fun n _ => ?_,
    hleadsab.finite (hleadsa.finite hf)⟩
  by_cases hn : n ∈ b.targets
  · have hna : n ∉ a.targets := (h.right n hn).1
    rw [hagreeb n hna, hleadsba.agree n hna]
  · rw [← hleadsab.agree n hn, hagreea n hn]

end RuleDefinition

end BusinessRules

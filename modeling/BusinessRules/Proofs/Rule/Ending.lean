import BusinessRules.Proofs.Engine.Compiled

/-!
# How a rule ends

A rule that does not iterate is skipped, matches, or fails, and leaves the facts as far as it got.
What it does is said here without running it: an action binds the value of an expression to the
target of the expression, or binds nothing, or raises a fault; a list of actions binds one after the
other; and a rule that fails midway leaves what the actions before the failing one have bound.

An action that raises binds nothing itself.  That is why `Action.Raises` mentions no facts
afterwards, and why the facts after a failure (`Stops`) are those of the actions in front.

## Main definitions

* `Action.Binds`, `Action.Raises`: what an action does to facts
* `Runs`, `Stops`: what a list of actions does, up to the first that raises
* `RuleDefinition.Ending`: the four ways in which a rule ends

## Main statements

* `runs_iff`, `stops_iff`: running a list of actions
* `RuleDefinition.ending_iff`: running a rule
* `Rule.evaluate_declarative`: evaluating one in a session
-/

namespace BusinessRules

open Expression

variable {env : Environment}

/-! ## Actions -/

namespace Action

/-- The facts after an action that raises nothing.  A choice takes the branch that its condition
selects, if there is one, and none if the condition is blank. -/
inductive Binds (env : Environment) : Action → Facts → Facts → Prop
  | compute {text : String} {f : Facts} {v : Value}
    (value : valueOf env (Context.facts f).values text = .ok v) :
    Binds env (.compute text) f (f.assign (target? text) v)
  | blank {condition : String} {yes no : Option String} {f : Facts}
    (blank : Text.isBlankText condition = true) : Binds env (.choose condition yes no) f f
  | missing {condition : String} {yes no : Option String} {f : Facts} {holds : Bool}
    (filled : Text.isBlankText condition = false)
    (truth : evaluateCondition env (.facts f) condition = .ok holds)
    (branch : (if holds then yes else no) = none) : Binds env (.choose condition yes no) f f
  | branch {condition text : String} {yes no : Option String} {f : Facts} {holds : Bool} {v : Value}
    (filled : Text.isBlankText condition = false)
    (truth : evaluateCondition env (.facts f) condition = .ok holds)
    (branch : (if holds then yes else no) = some text)
    (value : valueOf env (Context.facts f).values text = .ok v) :
    Binds env (.choose condition yes no) f (f.assign (target? text) v)

/-- The fault that an action raises: that of its expression, of its condition, or of the branch that
the condition selects. -/
inductive Raises (env : Environment) : Action → Facts → Fault → Prop
  | compute {text : String} {f : Facts} {e : Fault}
    (value : valueOf env (Context.facts f).values text = .error e) :
    Raises env (.compute text) f e
  | condition {condition : String} {yes no : Option String} {f : Facts} {e : Fault}
    (filled : Text.isBlankText condition = false)
    (truth : evaluateCondition env (.facts f) condition = .error e) :
    Raises env (.choose condition yes no) f e
  | branch {condition text : String} {yes no : Option String} {f : Facts} {holds : Bool} {e : Fault}
    (filled : Text.isBlankText condition = false)
    (truth : evaluateCondition env (.facts f) condition = .ok holds)
    (branch : (if holds then yes else no) = some text)
    (value : valueOf env (Context.facts f).values text = .error e) :
    Raises env (.choose condition yes no) f e

theorem binds_or_raises (env : Environment) (a : Action) (f : Facts) :
    (∃ f', a.Binds env f f') ∨ ∃ e, a.Raises env f e := by
  cases a with
  | compute text =>
    cases hv : valueOf env (Context.facts f).values text with
    | error e => exact .inr ⟨e, .compute hv⟩
    | ok v => exact .inl ⟨_, .compute hv⟩
  | choose condition yes no =>
    cases hblank : Text.isBlankText condition with
    | true => exact .inl ⟨f, .blank hblank⟩
    | false =>
      cases htruth : evaluateCondition env (.facts f) condition with
      | error e => exact .inr ⟨e, .condition hblank htruth⟩
      | ok holds =>
        cases hbranch : if holds then yes else no with
        | none => exact .inl ⟨f, .missing hblank htruth hbranch⟩
        | some text =>
          cases hv : valueOf env (Context.facts f).values text with
          | error e => exact .inr ⟨e, .branch hblank htruth hbranch hv⟩
          | ok v => exact .inl ⟨_, .branch hblank htruth hbranch hv⟩

theorem run_of_binds {a : Action} {f f' : Facts} (h : a.Binds env f f') :
    a.run env (.facts f) = .ok (.facts f') := by
  cases h with
  | compute value =>
    rw [run, evaluateExpression_facts, value]
    rfl
  | blank blank => rw [run, if_pos blank]
  | missing filled truth branch =>
    rw [run, filled, if_neg Bool.false_ne_true, truth]
    simp only [branch]
    rfl
  | branch filled truth branch value =>
    rw [run, filled, if_neg Bool.false_ne_true, truth]
    simp only [branch]
    rw [evaluate_some, evaluateExpression_facts, value]
    rfl

theorem run_of_raises {a : Action} {f : Facts} {e : Fault} (h : a.Raises env f e) :
    a.run env (.facts f) = .error e := by
  cases h with
  | compute value =>
    rw [run, evaluateExpression_facts, value]
    rfl
  | condition filled truth => rw [run, filled, if_neg Bool.false_ne_true, truth]
  | branch filled truth branch value =>
    rw [run, filled, if_neg Bool.false_ne_true, truth]
    simp only [branch]
    rw [evaluate_some, evaluateExpression_facts, value]
    rfl

end Action

/-! ## Lists of actions -/

/-- The facts after a list of actions none of which raises. -/
inductive Runs (env : Environment) : List Action → Facts → Facts → Prop
  | nil {f : Facts} : Runs env [] f f
  | cons {a : Action} {rest : List Action} {f f' f'' : Facts} (head : a.Binds env f f')
    (tail : Runs env rest f' f'') : Runs env (a :: rest) f f''

/-- The fault of the first action of a list that raises, and the facts after the actions in front of
it. -/
structure Stops (env : Environment) (actions : List Action) (f : Facts) (e : Fault) (f' : Facts) :
    Prop where
  parts : ∃ before a after, actions = before ++ a :: after ∧ Runs env before f f' ∧
    a.Raises env f' e

theorem Stops.cons {a : Action} {rest : List Action} {f f' f'' : Facts} {e : Fault}
    (head : a.Binds env f f') (tail : Stops env rest f' e f'') :
    Stops env (a :: rest) f e f'' := by
  obtain ⟨before, b, after, rfl, hruns, hraises⟩ := tail
  exact ⟨a :: before, b, after, rfl, .cons head hruns, hraises⟩

theorem runs_or_stops (env : Environment) (actions : List Action) (f : Facts) :
    (∃ f', Runs env actions f f') ∨ ∃ e f', Stops env actions f e f' := by
  induction actions generalizing f with
  | nil => exact .inl ⟨f, .nil⟩
  | cons a rest ih =>
    rcases a.binds_or_raises env f with ⟨f', head⟩ | ⟨e, h⟩
    · rcases ih f' with ⟨f'', tail⟩ | ⟨e, f'', tail⟩
      · exact .inl ⟨f'', .cons head tail⟩
      · exact .inr ⟨e, f'', .cons head tail⟩
    · exact .inr ⟨e, f, [], a, rest, rfl, .nil, h⟩

/-- A list that begins with actions none of which raises. -/
theorem runActions_append_of_runs {before : List Action} {f f' : Facts} (h : Runs env before f f')
    (after : List Action) :
    runActions env (.facts f) (before ++ after) = runActions env (.facts f') after := by
  induction h with
  | nil => rfl
  | cons head tail ih =>
    rw [List.cons_append, runActions, Action.run_of_binds head]
    exact ih

theorem runActions_of_runs {actions : List Action} {f f' : Facts} (h : Runs env actions f f') :
    runActions env (.facts f) actions = (.facts f', none) := by
  have happend := runActions_append_of_runs h []
  rwa [List.append_nil] at happend

theorem runActions_of_stops {actions : List Action} {f f' : Facts} {e : Fault}
    (h : Stops env actions f e f') : runActions env (.facts f) actions = (.facts f', some e) := by
  obtain ⟨before, a, after, rfl, hruns, hraises⟩ := h
  rw [runActions_append_of_runs hruns, runActions, Action.run_of_raises hraises]

/-! ## Rules -/

namespace RuleDefinition

/-- Whether the conditions of a rule hold; a rule without conditions always runs. -/
def groupHolds (d : RuleDefinition) (f : Facts) : Outcome Bool :=
  (d.conditions.map (·.holds (.facts f))).getD (.ok true)

/-- How a rule that does not iterate ends in given facts: what becomes of it, its result, and the
facts afterwards. -/
inductive Ending (env : Environment) (d : RuleDefinition) (f : Facts) :
    Status → RuleResult → Facts → Prop
  | skipped (group : d.groupHolds f = .ok false) : Ending env d f .skipped .skip f
  | matched {f' : Facts} (group : d.groupHolds f = .ok true)
    (runs : Runs env (d.actions.getD []) f f') : Ending env d f .matched .done f'
  | groupFailed {e : Fault} (group : d.groupHolds f = .error e) :
    Ending env d f .failed (.failed ("Rule evaluation failed: " ++ e.message)) f
  | actionFailed {e : Fault} {f' : Facts} (group : d.groupHolds f = .ok true)
    (stops : Stops env (d.actions.getD []) f e f') :
    Ending env d f .failed (.failed ("Rule evaluation failed: " ++ e.message)) f'

theorem exists_ending (env : Environment) (d : RuleDefinition) (f : Facts) :
    ∃ status result f', d.Ending env f status result f' := by
  cases hgroup : d.groupHolds f with
  | error e => exact ⟨_, _, _, .groupFailed hgroup⟩
  | ok holds =>
    cases holds with
    | false => exact ⟨_, _, _, .skipped hgroup⟩
    | true =>
      rcases runs_or_stops env (d.actions.getD []) f with ⟨f', hruns⟩ | ⟨e, f', hstops⟩
      · exact ⟨_, _, _, .matched hgroup hruns⟩
      · exact ⟨_, _, _, .actionFailed hgroup hstops⟩

variable {d : RuleDefinition} {f f' : Facts} {status : Status} {result : RuleResult}

/-- A run has the result of the ending and leaves its facts. -/
theorem runPlain_of_ending (h : d.Ending env f status result f') :
    (d.runPlain env (.facts f)).result = result ∧
      (d.runPlain env (.facts f)).context = .facts f' ∧ result.status = status := by
  rw [runPlain, show (d.conditions.map (·.holds (.facts f))).getD (.ok true) = d.groupHolds f from
    rfl]
  cases h with
  | skipped group =>
    rw [group]
    exact ⟨rfl, rfl, by decide⟩
  | matched group runs =>
    rw [group]
    simp only [runActions_of_runs runs]
    exact ⟨trivial, trivial, by decide⟩
  | groupFailed group =>
    rw [group]
    exact ⟨rfl, rfl, rfl⟩
  | actionFailed group stops =>
    rw [group]
    simp only [runActions_of_stops stops]
    exact ⟨rfl, trivial, rfl⟩

/-- A rule ends in one way only. -/
theorem Ending.unique (h : d.Ending env f status result f') {status' : Status}
    {result' : RuleResult} {f'' : Facts} (h' : d.Ending env f status' result' f'') :
    status' = status ∧ result' = result ∧ f'' = f' := by
  obtain ⟨hresult, hcontext, hstatus⟩ := runPlain_of_ending h
  obtain ⟨hresult', hcontext', hstatus'⟩ := runPlain_of_ending h'
  have hsame : result' = result := hresult'.symm.trans hresult
  refine ⟨?_, hsame, ?_⟩
  · rw [← hstatus, ← hstatus', hsame]
  · exact Context.facts.inj (hcontext'.symm.trans hcontext)

end RuleDefinition

/-- Conditions fail at the first name that is not bound, if nothing in front raises. -/
theorem ConditionGroup.holds_of_unbound {g : ConditionGroup} {f : Facts}
    {before after : List ConditionItem} {item : ConditionItem}
    (hall : g.all.getD [] = before ++ item :: after) (hunbound : f.get? item.name = none)
    (hbefore : ∀ other ∈ before, ∃ b, other.holds (.facts f) = .ok b) :
    g.holds (.facts f) = .ok false := by
  have hitem : item.holds (.facts f) = .ok false := by
    rw [ConditionItem.holds, Context.lookup, hunbound]
  have hfalse : allOf (ConditionItem.holds (.facts f)) (before ++ item :: after) = .ok false := by
    clear hall
    induction before with
    | nil => rw [List.nil_append, allOf, hitem]
    | cons other before ih =>
      obtain ⟨b, hb⟩ := hbefore other List.mem_cons_self
      rw [List.cons_append, allOf, hb]
      cases b with
      | false => rfl
      | true => exact ih fun other hother => hbefore other (List.mem_cons_of_mem _ hother)
  rw [ConditionGroup.holds, ConditionGroup.allHold, hall, hfalse]

/-! ## Rules in a session -/

variable {β : Type}

/-- A rule that does not iterate is run in the context, in either mode. -/
theorem Rule.evaluate_eq_runPlain (h : Handlers β) (env : Environment) (mode : Mode) (name : String)
    (d : RuleDefinition) (s : Session β) :
    (Rule.declarative d).evaluate h env mode name s =
      (.ok (d.runPlain env (s.context name)).result,
        (s.withContext name (d.runPlain env (s.context name)).context).report
          (d.runPlain env (s.context name)).log) := by
  cases mode <;> rfl

/-- **How a rule ends, and what it leaves behind.**  Evaluating a rule that does not iterate, in a
context of facts, raises nothing.  The rule ends in exactly one way: it is skipped and leaves the
facts as they were; or it matches, and its actions have bound one after the other; or its conditions
raised and the facts are as they were; or an action raised, and the facts are those after the
actions in front of it.  It is skipped whenever a name that all of its conditions need is not bound,
and no condition in front of that one raises. -/
theorem Rule.evaluate_declarative (h : Handlers β) (env : Environment) (mode : Mode) (name : String)
    (d : RuleDefinition) (s : Session β) {f : Facts} (hcontext : s.context name = .facts f) :
    ∃ status result f',
      ((Rule.declarative d).evaluate h env mode name s).1 = .ok result ∧
      ((Rule.declarative d).evaluate h env mode name s).2.context name = .facts f' ∧
      d.Ending env f status result f' ∧
      (∀ status' result' f'', d.Ending env f status' result' f'' →
        status' = status ∧ result' = result ∧ f'' = f') ∧
      ∀ g before item after, d.conditions = some g → g.all.getD [] = before ++ item :: after →
        f.get? item.name = none →
        (∀ other ∈ before, ∃ b, other.holds (.facts f) = .ok b) → status = .skipped := by
  obtain ⟨status, result, f', hending⟩ := d.exists_ending env f
  obtain ⟨hresult, hfacts, -⟩ := RuleDefinition.runPlain_of_ending hending
  have hevaluate : (Rule.declarative d).evaluate h env mode name s =
      (.ok result, (s.withContext name (.facts f')).report (d.runPlain env (.facts f)).log) := by
    rw [Rule.evaluate_eq_runPlain, hcontext, hresult, hfacts]
  refine ⟨status, result, f', by rw [hevaluate], ?_, hending, fun _ _ _ => hending.unique, ?_⟩
  · rw [hevaluate]
    exact Session.context_withContext s name (.facts f')
  · intro g before item after hconditions hall hunbound hbefore
    have hgroup : d.groupHolds f = .ok false := by
      rw [RuleDefinition.groupHolds, hconditions]
      exact ConditionGroup.holds_of_unbound hall hunbound hbefore
    exact (hending.unique (.skipped hgroup)).1.symm

/-- A rule that binds a total, chooses nothing, divides by zero, and would bind something after. -/
def midwayRule : RuleDefinition where
  id := "r"
  name := "midway"
  description := ""
  priority := 0
  conditions := some ⟨some [⟨"price", .gt, .int 1⟩], none⟩
  actions := some [.compute "total = price * 2", .choose " " (some "never = 1") (some "never = 2"),
    .choose "total > 5" (some "rest = total / 0") none, .compute "late = 1"]
  foreach := none

/-- Facts that bind a price. -/
def priceFacts : Facts := ⟨[("price", .int 5)]⟩

/-- The rule fails at its third action and leaves what the first one has bound. -/
theorem evaluate_declarativeSample : ∃ result f',
    ((Rule.declarative midwayRule).evaluate Session.plainHandlers [] .sync "order"
        (.start [("order", .facts priceFacts)])).1 = .ok result ∧
      midwayRule.Ending [] priceFacts .failed result f' ∧
      result.error = some "Rule evaluation failed: Division by zero" ∧
      f'.bindings.map Prod.fst = ["price", "total"] := by
  obtain ⟨status, result, f', hresult, hcontext, hending, -, -⟩ :=
    Rule.evaluate_declarative Session.plainHandlers [] .sync "order" midwayRule
      (.start [("order", .facts priceFacts)]) rfl
  have herror : ((Rule.declarative midwayRule).evaluate Session.plainHandlers [] .sync "order"
      (.start [("order", .facts priceFacts)])).1.map (fun r => (r.status, r.error)) =
      .ok (.failed, some "Rule evaluation failed: Division by zero") := by
    decide +kernel
  have hbound : (((Rule.declarative midwayRule).evaluate Session.plainHandlers [] .sync "order"
      (.start [("order", .facts priceFacts)])).2.context "order").known.bindings.map
        Prod.fst = ["price", "total"] := by
    decide +kernel
  rw [hresult] at herror
  rw [hcontext] at hbound
  have hparts := Prod.mk.inj (Except.ok.inj herror)
  have hstatus := (RuleDefinition.runPlain_of_ending hending).2.2
  rw [hparts.1] at hstatus
  subst hstatus
  exact ⟨result, f', hresult, hending, hparts.2, hbound⟩

end BusinessRules

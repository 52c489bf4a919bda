import Mathlib.Data.List.Basic
import BusinessRules.Proofs.Engine.Run

/-!
# Rules are isolated from each other

While an engine evaluates a context, its rules and listeners may change the very registry and the
very lists of listeners that the engine works with, and rules may raise faults.  None of this
changes which rules have their turn: those that were registered at the start, each once and in
order.  A fault of a rule becomes the failed result of that rule, and every failed result is
reported by one warning.

## Main definitions

* `Session.warnings`, `Session.evaluatedRules`: what has been reported and evaluated so far
* `Session.Quiet`: a change that reports no warning and evaluates no rule
* `Rule.raised?`: the fault that ends a rule, wherever it is caught
* `Session.Turn`: the session in which a rule has its turn
* `Session.Answers`: what a rule answers in a session

## Main statements

* `Procedure.quiet`, `Rule.quiet`: whatever bodies and listeners do is quiet
* `Rounds.evaluatedRules_eq`, `Rounds.warnings_eq`: what the turns of rules leave behind
* `evaluate_isolated`: what an evaluation gives, and when it fails
-/

namespace BusinessRules

variable {β : Type}

/-- The rule whose evaluation is observed. -/
def Observation.rule? : Observation → Option String
  | .evaluated rule => some rule
  | _ => none

namespace Session

/-- The texts of the warnings that have been reported. -/
def warnings (s : Session β) : List String :=
  (s.log.filter fun e => e.level = .warning).map LogEntry.message

/-- The rules that have been evaluated, by their identifiers. -/
def evaluatedRules (s : Session β) : List String := s.observed.filterMap Observation.rule?

/-! ## Quiet changes -/

/-- A change of a session that reports no warning and evaluates no rule. -/
structure Quiet (s t : Session β) : Prop where
  warnings_eq : t.warnings = s.warnings
  evaluatedRules_eq : t.evaluatedRules = s.evaluatedRules

namespace Quiet

variable {s t u : Session β}

theorem refl (s : Session β) : Quiet s s := ⟨rfl, rfl⟩

theorem trans (hst : Quiet s t) (htu : Quiet t u) : Quiet s u :=
  ⟨htu.warnings_eq.trans hst.warnings_eq, htu.evaluatedRules_eq.trans hst.evaluatedRules_eq⟩

/-- A change of neither the log nor the observations. -/
theorem of_eq (hlog : t.log = s.log) (hobserved : t.observed = s.observed) : Quiet s t :=
  ⟨by rw [warnings, hlog, warnings], by rw [evaluatedRules, hobserved, evaluatedRules]⟩

theorem report (s : Session β) {entries : List LogEntry}
    (h : ∀ e ∈ entries, e.level ≠ .warning) : Quiet s (s.report entries) := by
  have hnone : (entries.filter fun e => e.level = .warning) = [] :=
    List.filter_eq_nil_iff.2 fun e he => by simpa using h e he
  refine ⟨?_, rfl⟩
  rw [warnings, Session.report, List.filter_append, hnone, List.append_nil, warnings]

theorem observe (s : Session β) {o : Observation} (h : o.rule? = none) :
    Quiet s (s.observe o) := by
  refine ⟨rfl, ?_⟩
  rw [evaluatedRules, Session.observe, List.filterMap_append, List.filterMap_cons_none h,
    List.filterMap_nil, List.append_nil, evaluatedRules]

theorem withContext (s : Session β) (name : String) (c : Context) :
    Quiet s (s.withContext name c) := .of_eq rfl rfl

theorem addRule (s : Session β) (rule : Rule β) : Quiet s (s.addRule rule) := by
  have hregistry : Quiet s { s with registry := s.registry.add rule } := .of_eq rfl rfl
  refine hregistry.trans (.report _ fun e he => ?_)
  rw [List.mem_singleton.1 he]
  split <;> exact LogLevel.noConfusion

theorem removeRule (s : Session β) (id : String) : Quiet s (s.removeRule id).2 := by
  rw [Session.removeRule]
  split
  · have hregistry : Quiet s { s with registry := s.registry.remove id } := .of_eq rfl rfl
    refine hregistry.trans (.report _ fun e he => ?_)
    rw [List.mem_singleton.1 he]
    exact LogLevel.noConfusion
  · exact .refl s

theorem clearRules (s : Session β) : Quiet s s.clearRules := by
  have hregistry : Quiet s { s with registry := .empty } := .of_eq rfl rfl
  refine hregistry.trans (.report _ fun e he => ?_)
  rw [List.mem_singleton.1 he]
  exact LogLevel.noConfusion

theorem listen (s : Session β) (moment : Moment) (listener : String) :
    Quiet s (s.listen moment listener) := by
  cases moment with
  | evaluating => exact .of_eq rfl rfl
  | evaluated => exact .of_eq rfl rfl

theorem unlisten (s : Session β) (listener : String) : Quiet s (s.unlisten listener).2 :=
  .of_eq rfl rfl

end Quiet

end Session

open Session

/-- **Whatever a procedure does is quiet.** -/
theorem Procedure.quiet {α : Type} (name : String) (procedure : Procedure β α) (s : Session β) :
    Quiet s (procedure.perform name s).2 := by
  induction procedure generalizing s with
  | done a => exact .refl s
  | raise f => exact .refl s
  | note text next ih => exact (Quiet.observe s rfl).trans (ih _)
  | read next ih => exact ih _ s
  | write c next ih => exact (Quiet.withContext s name c).trans (ih _)
  | addRule rule next ih => exact (Quiet.addRule s rule).trans (ih _)
  | removeRule id next ih => exact (Quiet.removeRule s id).trans (ih _ _)
  | clearRules next ih => exact (Quiet.clearRules s).trans (ih _)
  | listen moment listener next ih => exact (Quiet.listen s moment listener).trans (ih _)
  | unlisten listener next ih => exact (Quiet.unlisten s listener).trans (ih _ _)

/-! ## Turns -/

theorem RuleDefinition.level_of_mem_runPlain {env : Environment} {context : Context}
    {d : RuleDefinition} {e : LogEntry} (h : e ∈ (d.runPlain env context).log) :
    e.level ≠ .warning := by
  rw [RuleDefinition.runPlain] at h
  split at h
  · cases h
  · rw [List.mem_singleton.1 h]
    exact LogLevel.noConfusion
  · split at h <;> cases h

theorem RuleDefinition.level_of_mem_visitAll {env : Environment} {facts : Facts}
    {d : RuleDefinition} {elements : List Datum} {e : LogEntry}
    (h : e ∈ (d.visitAll env facts elements).2) : e.level ≠ .warning := by
  rw [RuleDefinition.visitAll] at h
  split at h
  · cases h
  · next actions _ =>
    obtain ⟨⟨element, index⟩, -, he⟩ := List.mem_flatMap.1 h
    change e ∈ d.visit env facts actions element index at he
    rw [RuleDefinition.visit] at he
    split at he
    · cases he
    · rw [List.mem_singleton.1 he]
      exact LogLevel.noConfusion

theorem RuleDefinition.level_of_mem_runEach {env : Environment} {context : Context}
    {d : RuleDefinition} {name : String} {e : LogEntry}
    (h : e ∈ (d.runEach env context name).log) : e.level ≠ .warning := by
  rw [RuleDefinition.runEach] at h
  split at h
  · cases h
  · split at h
    · rw [List.mem_singleton.1 h]
      exact LogLevel.noConfusion
    · exact RuleDefinition.level_of_mem_visitAll h

theorem Session.Quiet.settleRun (s : Session β) (name : String) {run : Run}
    (h : ∀ e ∈ run.log, e.level ≠ .warning) : Quiet s (s.settleRun name run).2 :=
  (Quiet.withContext s name run.context).trans (.report _ h)

/-- **Whatever a rule does is quiet.** -/
theorem Rule.quiet (h : Handlers β) (env : Environment) (mode : Mode) (name : String)
    (rule : Rule β) (s : Session β) : Quiet s (rule.attempt h env mode name s).2 := by
  cases rule with
  | declarative d =>
    exact Quiet.settleRun s name fun e he => RuleDefinition.level_of_mem_runPlain he
  | «foreach» d collection =>
    exact Quiet.settleRun s name fun e he => RuleDefinition.level_of_mem_runEach he
  | delegate info body asyncBody | custom info body asyncBody =>
    exact Procedure.quiet name (h.body (mode.body body asyncBody)) s

namespace Session

variable {h : Handlers β} {env : Environment} {mode : Mode} {name : String}

/-- The text of the warning about a failed result. -/
def failureText (rule : Rule β) (result : RuleResult) : List String :=
  if result.success then [] else ["Rule " ++ rule.id ++ " failed: " ++ result.error.getD "None"]

theorem warnings_report_warning (s : Session β) (rule : Rule β) (result : RuleResult) :
    (s.report (warning rule result)).warnings = s.warnings ++ failureText rule result := by
  rw [warnings, report, List.filter_append, List.map_append, ← warnings, warning, failureText]
  split <;> rfl

/-- The turn of a rule evaluates this rule, and reports its result if that is a failure. -/
theorem evaluateRule_turn {rule : Rule β} {s t : Session β} {result : RuleResult}
    (hrule : s.evaluateRule h env mode name rule = (result, t)) :
    t.evaluatedRules = s.evaluatedRules ++ [rule.id] ∧
      t.warnings = s.warnings ++ failureText rule result := by
  have hquiet := Rule.quiet h env mode name rule (s.observe (.evaluated rule.id))
  obtain ⟨x, hx, heq⟩ := evaluateRule_eq h env mode name rule s
  rw [← hx] at hquiet
  rw [heq] at hrule
  obtain ⟨rfl, rfl⟩ := Prod.mk.inj hrule
  constructor
  · calc evaluatedRules _ = x.2.evaluatedRules := rfl
      _ = (s.observe (.evaluated rule.id)).evaluatedRules := hquiet.evaluatedRules_eq
      _ = s.evaluatedRules ++ [rule.id] := by
        rw [evaluatedRules, observe, List.filterMap_append]
        rfl
  · calc warnings _ = x.2.warnings ++ failureText rule (rule.worded mode x.1) :=
          warnings_report_warning x.2 rule _
      _ = s.warnings ++ failureText rule (rule.worded mode x.1) := by
        rw [hquiet.warnings_eq]
        rfl

theorem Notified.quiet {event : Event β} {ls : List String} {s t : Session β}
    (hcalls : Notified h name event ls s t) : Quiet s t := by
  induction hcalls with
  | nil s => exact .refl s
  | @cons l ls s t u hl _ ih =>
    have hperform := Procedure.quiet name (h.listener l event)
      (s.observe (.notified l event.rule.id (event.result.map (·.status))))
    rw [hl] at hperform
    exact ((Quiet.observe s rfl).trans hperform).trans ih

/-- **Every rule is evaluated once and in its turn.** -/
theorem Rounds.evaluatedRules_eq {rules : List (Rule β)} {s t : Session β}
    {results : List RuleResult} (hrounds : Rounds h env mode name rules s results t) :
    t.evaluatedRules = s.evaluatedRules ++ rules.map Rule.id := by
  induction hrounds with
  | nil s => rw [List.map_nil, List.append_nil]
  | @cons rule rest result results s t u v w hbefore hrule hafter _ ih =>
    rw [ih, hafter.quiet.evaluatedRules_eq, (evaluateRule_turn hrule).1,
      hbefore.quiet.evaluatedRules_eq, List.append_assoc, List.singleton_append, List.map_cons]

/-- **Every failed result is reported once and in its turn.** -/
theorem Rounds.warnings_eq {rules : List (Rule β)} {s t : Session β}
    {results : List RuleResult} (hrounds : Rounds h env mode name rules s results t) :
    t.warnings = s.warnings ++ (List.zipWith failureText rules results).flatten := by
  induction hrounds with
  | nil s => rw [List.zipWith_nil_left, List.flatten_nil, List.append_nil]
  | @cons rule rest result results s t u v w hbefore hrule hafter _ ih =>
    rw [ih, hafter.quiet.warnings_eq, (evaluateRule_turn hrule).2, hbefore.quiet.warnings_eq,
      List.zipWith_cons_cons, List.flatten_cons, List.append_assoc]

end Session

/-! ## Faults of rules -/

/-- The fault that ends the run of a definition that does not iterate: of its conditions, or of its
actions if the conditions hold. -/
def RuleDefinition.raised? (env : Environment) (context : Context) (d : RuleDefinition) :
    Option Fault :=
  match (d.conditions.map (·.holds context)).getD (.ok true) with
  | .error f => some f
  | .ok false => none
  | .ok true => (runActions env context (d.actions.getD [])).2

/-- The fault that ends a procedure. -/
def Procedure.raised? {α : Type} (name : String) (procedure : Procedure β α) (s : Session β) :
    Option Fault :=
  match (procedure.perform name s).1 with
  | .error f => some f
  | .ok _ => none

/-- The fault that ends a rule, whether the rule catches it itself or leaves it to the engine. -/
def Rule.raised? (h : Handlers β) (env : Environment) (name : String) (rule : Rule β)
    (s : Session β) : Option Fault :=
  match rule with
  | declarative d => d.raised? env (s.context name)
  | «foreach» _ collection =>
    match (s.context name).collection collection with
    | .error f => some f
    | .ok _ => none
  | delegate _ body _ | custom _ body _ => (h.body body).raised? name s

theorem RuleDefinition.runPlain_of_raised? {env : Environment} {context : Context}
    {d : RuleDefinition} {f : Fault} (hraised : d.raised? env context = some f) :
    (d.runPlain env context).result = .failed (evaluationFailed f) := by
  rw [RuleDefinition.raised?] at hraised
  rw [RuleDefinition.runPlain]
  generalize (d.conditions.map (·.holds context)).getD (.ok true) = x at hraised ⊢
  rcases x with g | _ | _
  · cases hraised
    rfl
  · cases hraised
  · change (runActions env context (d.actions.getD [])).2 = some f at hraised
    rcases hactions : runActions env context (d.actions.getD []) with ⟨after, g⟩
    rw [hactions] at hraised
    cases hraised
    rfl

theorem RuleDefinition.runEach_of_error {env : Environment} {context : Context}
    {d : RuleDefinition} {name : String} {f : Fault}
    (hraised : context.collection name = .error f) :
    (d.runEach env context name).result = .failed (evaluationFailed f) := by
  rw [RuleDefinition.runEach, hraised]

theorem Procedure.perform_of_raised? {name : String} {procedure : Procedure β RuleResult}
    {s : Session β} {f : Fault} (hraised : procedure.raised? name s = some f) :
    (procedure.perform name s).1 = .error f := by
  rw [Procedure.raised?] at hraised
  split at hraised
  · next hperform =>
    cases hraised
    exact hperform
  · cases hraised

/-- **The fault of a rule is its failed result**, wherever it is caught. -/
theorem Session.evaluateRule_of_raised? {h : Handlers β} {env : Environment} {name : String}
    {rule : Rule β} {s : Session β} {f : Fault}
    (hraised : rule.raised? h env name (s.observe (.evaluated rule.id)) = some f) :
    (s.evaluateRule h env .sync name rule).1 = .failed (evaluationFailed f) := by
  obtain ⟨x, hx, heq⟩ := evaluateRule_eq h env .sync name rule s
  rw [heq]
  generalize s.observe (.evaluated rule.id) = t at hraised hx
  rw [hx]
  cases rule with
  | declarative d => exact RuleDefinition.runPlain_of_raised? hraised
  | «foreach» d collection =>
    rw [Rule.raised?] at hraised
    split at hraised
    · next g hcollection =>
      cases hraised
      exact RuleDefinition.runEach_of_error hcollection
    · cases hraised
  | delegate info body asyncBody | custom info body asyncBody =>
    change Rule.worded .sync _ ((h.body body).perform name t).1 = _
    rw [Procedure.perform_of_raised? hraised]
    rfl

namespace Session

variable {h : Handlers β} {env : Environment} {name : String}

/-- The session `t` in which a rule has its turn, in an evaluation that starts in `s`: the rules
before it have had theirs and gave `earlier`, and the listeners have been told that it is next. -/
def Turn (h : Handlers β) (env : Environment) (name : String) (before : List (Rule β))
    (rule : Rule β) (s : Session β) (earlier : List RuleResult) (t : Session β) : Prop :=
  ∃ u, Rounds h env .sync name before s earlier u ∧
    Notified h name ⟨rule, none⟩ u.evaluating u t

/-- What a rule answers in a session: the result of its evaluation there, and if a fault ends it
there, the failed result that names the fault. -/
structure Answers (h : Handlers β) (env : Environment) (name : String) (rule : Rule β)
    (s : Session β) (result : RuleResult) : Prop where
  evaluated : (s.evaluateRule h env .sync name rule).1 = result
  raised : ∀ f, rule.raised? h env name (s.observe (.evaluated rule.id)) = some f →
    result = .failed ("Rule evaluation failed: " ++ f.message)

/-- Every rule answers in its turn: what the turns of the others do to the session is in the
session that it finds, and nowhere else. -/
theorem Rounds.answers {before rest : List (Rule β)} {rule : Rule β} {s t : Session β}
    {results : List RuleResult}
    (hrounds : Rounds h env .sync name (before ++ rule :: rest) s results t) :
    ∃ earlier result later u, results = earlier ++ result :: later ∧
      Turn h env name before rule s earlier u ∧ Answers h env name rule u result := by
  induction before generalizing s results with
  | nil =>
    cases hrounds with
    | @cons _ _ result later _ u _ _ _ hbefore hrule hafter hrest =>
      have hresult : (u.evaluateRule h env .sync name rule).1 = result := by rw [hrule]
      exact ⟨[], result, later, u, rfl, ⟨s, .nil s, hbefore⟩, hresult,
        fun f hf => hresult ▸ evaluateRule_of_raised? hf⟩
  | cons first before ih =>
    cases hrounds with
    | @cons _ _ given others _ _ _ _ _ hbefore hrule hafter hrest =>
      obtain ⟨earlier, result, later, u, rfl, ⟨v, hturns, hnotified⟩, hanswers⟩ := ih hrest
      exact ⟨given :: earlier, result, later, u, rfl,
        ⟨v, .cons hbefore hrule hafter hturns, hnotified⟩, hanswers⟩

end Session

end BusinessRules

import BusinessRules.Proofs.Engine.Exchange
import BusinessRules.Proofs.Engine.History
import BusinessRules.Proofs.Rule.Transparency

/-!
# Engines of compiled rules

An engine that holds compiled rules only, and to which nobody listens, does to a context what its
definitions do when they are run in turn.  It touches no other context, and neither its rules nor
its listeners.

## Main definitions

* `Session.Compiled`: a session of compiled rules without listeners
* `Session.Advanced`: a session that has moved on to another context of one name only

## Main statements

* `compiled_addDefinitions`: engines that hold the rules of definitions
* `evaluateRules_ofDefinition`: the turns of compiled rules
* `Compiled.evaluate`: an evaluation runs all definitions in turn
-/

namespace BusinessRules

open Session

variable {β : Type} {h : Handlers β} {env : Environment} {mode : Mode} {name : String}

theorem RuleDefinition.exists_facts_run (env : Environment) (d : RuleDefinition) (f : Facts) :
    ∃ f', (d.run env (.facts f)).context = .facts f' := by
  rw [run]
  cases d.collection? with
  | some collection =>
    obtain ⟨-, f', -, hf', -⟩ := runEach_congr env d collection (.refl [] f)
    exact ⟨f', hf'⟩
  | none =>
    have hkeeps : ∀ a : Action, a.Keeps env (· = ·) :=
      Action.keeps_of_values (fun hfg => by rw [hfg]) (fun _ _ hfg => by rw [hfg]) env
    obtain ⟨result, log, f', -, hf', -⟩ :=
      runPlain_of_keeps env (d := d) (f := f) (fun _ _ => rfl) (fun a _ => hkeeps a) rfl
    exact ⟨f', by simp only [hf']⟩

theorem RuleDefinition.exists_facts_runAll (env : Environment) (ds : List RuleDefinition)
    (f : Facts) : ∃ f', (runAll env ds (.facts f)).2 = .facts f' := by
  induction ds generalizing f with
  | nil => exact ⟨f, rfl⟩
  | cons d ds ih =>
    obtain ⟨f₁, hf₁⟩ := d.exists_facts_run env f
    obtain ⟨f', hf'⟩ := ih f₁
    exact ⟨f', by rw [runAll, hf₁, hf']⟩

namespace Session

variable {s t u : Session β} {c c' : Context}

/-- A session that holds only rules that were compiled from definitions, and has no listeners. -/
structure Compiled (s : Session β) : Prop where
  rules : ∀ r ∈ s.registry.rules, ∃ d, Rule.compile (some d) = .ok r
  evaluating : s.evaluating = []
  evaluated : s.evaluated = []

/-- A session that has moved on to a context and has left all other contexts as they were. -/
structure Advanced (name : String) (context : Context) (s t : Session β) : Prop
    extends Moved name context s t where
  context_of_ne : ∀ other, other ≠ name → t.context other = s.context other

theorem context_withContext_of_ne (s : Session β) {other : String} (c : Context)
    (h : other ≠ name) : (s.withContext name c).context other = s.context other := by
  have hlookup : ∀ contexts, (replaceIn name c contexts).lookup other = contexts.lookup other := by
    intro contexts
    have hne : (other == name) = false := by simpa using h
    induction contexts with
    | nil => simp [replaceIn, List.lookup_cons, hne]
    | cons entry rest ih =>
      obtain ⟨n, d⟩ := entry
      by_cases hn : n = name
      · subst hn
        simp [replaceIn, List.lookup_cons, hne]
      · simp [replaceIn, hn, List.lookup_cons, ih]
  rw [context, withContext, hlookup, context]

namespace Advanced

theorem refl (s : Session β) : Advanced name (s.context name) s s := ⟨.refl s, fun _ _ => rfl⟩

theorem trans (hst : Advanced name c s t) (htu : Advanced name c' t u) : Advanced name c' s u :=
  ⟨hst.toMoved.trans htu.toMoved, fun other hother =>
    (htu.context_of_ne other hother).trans (hst.context_of_ne other hother)⟩

theorem compiled (hst : Advanced name c s t) (hs : s.Compiled) : t.Compiled :=
  ⟨by rw [hst.registry_eq]; exact hs.rules, hst.evaluating_eq.trans hs.evaluating,
    hst.evaluated_eq.trans hs.evaluated⟩

end Advanced

theorem Compiled.exists_definitions (hs : s.Compiled) :
    ∃ ds : List RuleDefinition, s.registry.ordered = ds.map Rule.ofDefinition := by
  have hrules : ∀ r ∈ s.registry.ordered, ∃ d, Rule.ofDefinition d = r := by
    intro r hr
    obtain ⟨d, hd⟩ := hs.rules r (Registry.mem_ordered.1 hr)
    exact ⟨d, Except.ok.inj hd⟩
  generalize s.registry.ordered = rules at hrules
  induction rules with
  | nil => exact ⟨[], rfl⟩
  | cons r rest ih =>
    rw [List.forall_mem_cons] at hrules
    obtain ⟨⟨d, rfl⟩, hrest⟩ := hrules
    obtain ⟨ds, rfl⟩ := ih hrest
    exact ⟨d :: ds, rfl⟩

theorem Compiled.addDefinitions (hs : s.Compiled) (ds : List RuleDefinition) :
    (s.addDefinitions ds).Compiled := by
  rw [Session.addDefinitions]
  induction ds generalizing s with
  | nil => exact hs
  | cons d ds ih =>
    have hrules : (s.addRule (Rule.ofDefinition d)).HoldsOnly
        fun r => ∃ d, Rule.compile (some d) = .ok r := HoldsOnly.addRule hs.rules ⟨d, rfl⟩
    exact ih ⟨hrules, hs.evaluating, hs.evaluated⟩

/-- The rules of definitions are compiled. -/
theorem compiled_addDefinitions (contexts : List (String × Context)) (ds : List RuleDefinition) :
    ((start contexts : Session β).addDefinitions ds).Compiled :=
  Compiled.addDefinitions ⟨fun _ hr => absurd hr List.not_mem_nil, rfl, rfl⟩ ds

/-- Handlers of a program that has no bodies of its own, and whose listeners do nothing. -/
def plainHandlers : Handlers Empty := ⟨nofun, fun _ _ => .done ()⟩

/-! ## Evaluations -/

theorem evaluateRule_ofDefinition (h : Handlers β) (env : Environment) (mode : Mode)
    (name : String) (s : Session β) (d : RuleDefinition) :
    ∃ t, s.evaluateRule h env mode name (Rule.ofDefinition d) =
        ((d.run env (s.context name)).result, t) ∧
      Advanced name (d.run env (s.context name)).context s t := by
  rw [Rule.ofDefinition, RuleDefinition.run]
  cases d.collection? with
  | some collection =>
    cases mode <;> exact ⟨_, rfl, ⟨context_withContext .., rfl, rfl, rfl⟩,
      fun other hother => context_withContext_of_ne _ _ hother⟩
  | none =>
    cases mode <;> exact ⟨_, rfl, ⟨context_withContext .., rfl, rfl, rfl⟩,
      fun other hother => context_withContext_of_ne _ _ hother⟩

/-- **The turns of compiled rules**: their definitions are run in turn. -/
theorem evaluateRules_ofDefinition (h : Handlers β) (env : Environment) (mode : Mode)
    (name : String) (ds : List RuleDefinition) (hevaluating : s.evaluating = [])
    (hevaluated : s.evaluated = []) :
    ∃ t, evaluateRules h env mode name (ds.map Rule.ofDefinition) s =
        (.ok (RuleDefinition.runAll env ds (s.context name)).1, t) ∧
      Advanced name (RuleDefinition.runAll env ds (s.context name)).2 s t := by
  induction ds generalizing s with
  | nil => exact ⟨s, rfl, .refl s⟩
  | cons d ds ih =>
    obtain ⟨t, hrule, hst⟩ := evaluateRule_ofDefinition h env mode name s d
    obtain ⟨u, hrest, htu⟩ := ih (hst.evaluating_eq.trans hevaluating)
      (hst.evaluated_eq.trans hevaluated)
    rw [hst.context_eq] at hrest htu
    refine ⟨u, ?_, hst.trans htu⟩
    simp only [List.map_cons, evaluateRules, notify, listeners, hevaluating, callListeners, hrule,
      hst.evaluated_eq, hevaluated, hrest, RuleDefinition.runAll]

theorem target?_facts {f : Facts} (hcontext : s.context name = .facts f) :
    s.target? (some name) = some name := by
  rw [target?, Option.filter_some, hcontext]
  rfl

/-- **An evaluation runs all definitions in turn.** -/
theorem Compiled.evaluate (hs : s.Compiled) {f : Facts} (hcontext : s.context name = .facts f)
    {ds : List RuleDefinition} (hds : s.registry.ordered = ds.map Rule.ofDefinition)
    (h : Handlers β) (env : Environment) (mode : Mode) :
    ∃ t, s.evaluate h env mode (some name) =
        (.ok (RuleDefinition.runAll env ds (.facts f)).1, t) ∧
      Advanced name (RuleDefinition.runAll env ds (.facts f)).2 s t := by
  have hrules := evaluateRules_ofDefinition h env mode name ds hs.evaluating hs.evaluated
  rw [hcontext] at hrules
  rw [Session.evaluate, target?_facts hcontext, hds]
  exact hrules

end Session

end BusinessRules

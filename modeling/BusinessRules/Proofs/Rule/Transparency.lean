import BusinessRules.Proofs.Rule.Independence

/-!
# Runs that leave no trace

A definition that is skipped, and one that iterates over its collection, leave the facts as they
were, unless the collection is a stream that the loop uses up.  So they can be left out of a list
of definitions that are run one after the other: the others give the same results, and the same
data are bound in the end.  A definition that fails is another matter, for what it bound before
stays bound.

## Main definitions

* `RuleDefinition.run`, `RuleDefinition.runAll`: the run of one definition, and of several in turn
* `Facts.Lasting`: facts without streams
* `RuleDefinition.Traceless`: a definition that iterates or has been skipped

## Main statements

* `run_congr`: runs in facts that bind the same data
* `run_of_traceless`: what leaves no trace
* `runAll_filter`: leaving definitions out that leave no trace
-/

namespace BusinessRules

open Expression

namespace Facts

variable {f g : Facts}

/-- Facts none of which is a stream, so that no loop uses anything up. -/
def Lasting (f : Facts) : Prop := ∀ n shown rest, f.get? n ≠ some (.stream shown rest)

theorem Lasting.assign (hf : f.Lasting) (target : Option String) (v : Value) :
    (f.assign target v).Lasting := by
  cases target with
  | none => exact hf
  | some name =>
    intro n shown rest
    by_cases hname : n = name
    · rw [hname, Facts.assign, get?_set_self, Option.some_inj.ne]
      -- No value is stored as a stream.
      cases v <;> simp [Value.toDatum]
    · rw [Facts.assign, get?_set_of_ne _ _ hname]
      exact hf n shown rest

theorem Lasting.of_agreeOff (hf : f.Lasting) (hfg : f.AgreeOff [] g) : g.Lasting := by
  intro n shown rest
  rw [← hfg n List.not_mem_nil]
  exact hf n shown rest

end Facts

/-- Every action keeps it that facts bind the same data, and that there are no streams among
them. -/
theorem Action.keeps_lasting (env : Environment) (a : Action) :
    a.Keeps env fun f g => f.AgreeOff [] g ∧ f.Lasting :=
  keeps_of_values (fun h => values_eq_of_agreeOff h.1)
    (fun target v h => ⟨h.1.assign target v, h.2.assign target v⟩) env a

namespace RuleDefinition

/-- Run a definition in the way that suits it. -/
def run (env : Environment) (context : Context) (d : RuleDefinition) : Run :=
  match d.collection? with
  | some collection => d.runEach env context collection
  | none => d.runPlain env context

/-- Run definitions one after the other: their results, and the context that is left. -/
def runAll (env : Environment) : List RuleDefinition → Context → List RuleResult × Context
  | [], context => ([], context)
  | d :: ds, context =>
    ((d.run env context).result :: (runAll env ds (d.run env context).context).1,
      (runAll env ds (d.run env context).context).2)

/-- A definition that iterates, or whose result says that it was skipped. -/
def Traceless (d : RuleDefinition) (result : RuleResult) : Prop :=
  d.collection?.isSome = true ∨ result.isSkipped = true

variable {env : Environment} {d : RuleDefinition} {ds : List RuleDefinition} {f g : Facts}

theorem length_runAll (env : Environment) (ds : List RuleDefinition) (context : Context) :
    (runAll env ds context).1.length = ds.length := by
  induction ds generalizing context with
  | nil => rfl
  | cons d ds ih => rw [runAll, List.length_cons, List.length_cons, ih]

/-! ## Single runs -/

theorem runEach_context (hf : f.Lasting) (name : String) :
    (d.runEach env (.facts f) name).context = .facts f := by
  rw [runEach, Context.collection]
  simp only
  cases hfound : ((f.get? name).filter _).bind _ with
  | none => rfl
  | some found =>
    obtain ⟨c, elements⟩ := found
    obtain ⟨c', hc', hmap⟩ := Option.bind_eq_some_iff.1 hfound
    obtain ⟨_, _, hpair⟩ := Option.map_eq_some_iff.1 hmap
    obtain rfl : c' = c := congrArg Prod.fst hpair
    have hget : f.get? name = some c' := (Option.filter_eq_some_iff.1 hc').1
    cases c' with
    | stream shown rest => exact absurd hget (hf name shown rest)
    | _ => rfl

/-- A definition that does not iterate and is skipped has not come to its actions. -/
theorem runPlain_context (h : (d.runPlain env (.facts f)).result.isSkipped = true) :
    (d.runPlain env (.facts f)).context = .facts f := by
  rw [runPlain] at h ⊢
  generalize (d.conditions.map (·.holds (.facts f))).getD (.ok true) = holds at h ⊢
  rcases holds with e | _ | _
  · rfl
  · rfl
  · simp only at h
    split at h <;> cases h

/-- **What leaves no trace**: the facts are what they were. -/
theorem run_of_traceless (hf : f.Lasting) (h : d.Traceless (d.run env (.facts f)).result) :
    (d.run env (.facts f)).context = .facts f := by
  rw [Traceless] at h
  rw [run] at h ⊢
  cases hcollection : d.collection? with
  | some collection => exact runEach_context hf collection
  | none =>
    rw [hcollection] at h
    rcases h with h | h
    · cases h
    · exact runPlain_context h

/-- **Runs in facts that bind the same data** give the same result and leave facts that do. -/
theorem run_congr (env : Environment) (d : RuleDefinition) (hfg : f.AgreeOff [] g)
    (hf : f.Lasting) :
    (d.run env (.facts f)).result = (d.run env (.facts g)).result ∧
      ∃ f' g', (d.run env (.facts f)).context = .facts f' ∧
        (d.run env (.facts g)).context = .facts g' ∧ f'.AgreeOff [] g' ∧ f'.Lasting := by
  rw [run, run]
  cases d.collection? with
  | some collection =>
    exact ⟨(runEach_congr env d collection hfg).1, f, g, runEach_context hf collection,
      runEach_context (hf.of_agreeOff hfg) collection, hfg, hf⟩
  | none =>
    obtain ⟨result, log, f', g', hf', hg', hfg', hlasting⟩ :=
      runPlain_of_keeps env (d := d) (fun _ _ => congrFun (values_eq_of_agreeOff hfg) _)
        (fun a _ => a.keeps_lasting env) ⟨hfg, hf⟩
    simp only [hf', hg']
    exact ⟨trivial, f', g', rfl, rfl, hfg', hlasting⟩

/-! ## Runs in turn -/

/-- **Definitions that leave no trace can be left out** of those that are run in turn. -/
theorem runAll_filter (keep : RuleDefinition → Bool) (hfg : f.AgreeOff [] g) (hf : f.Lasting)
    (hdropped : ∀ p ∈ ds.zip (runAll env ds (.facts f)).1, keep p.1 = false → p.1.Traceless p.2) :
    (ds.filter keep).zip (runAll env (ds.filter keep) (.facts g)).1 =
        (ds.zip (runAll env ds (.facts f)).1).filter (fun p => keep p.1) ∧
      ∃ f' g', (runAll env ds (.facts f)).2 = .facts f' ∧
        (runAll env (ds.filter keep) (.facts g)).2 = .facts g' ∧ f'.AgreeOff [] g' := by
  induction ds generalizing f g with
  | nil => exact ⟨rfl, f, g, rfl, rfl, hfg⟩
  | cons d ds ih =>
    rw [runAll, List.zip_cons_cons, List.forall_mem_cons] at hdropped
    obtain ⟨hd, hds⟩ := hdropped
    rw [runAll, List.zip_cons_cons]
    cases hkeep : keep d with
    | true =>
      obtain ⟨hresult, f₁, g₁, hf₁, hg₁, hfg₁, hlasting⟩ := run_congr env d hfg hf
      rw [hf₁] at hds
      obtain ⟨hzip, hends⟩ := ih hfg₁ hlasting hds
      rw [List.filter_cons_of_pos hkeep, List.filter_cons_of_pos (by exact hkeep), runAll,
        List.zip_cons_cons, hf₁, hg₁, hzip, hresult]
      exact ⟨rfl, hends⟩
    | false =>
      -- The facts are the same after the run as before, as if there were none.
      have hstay := run_of_traceless hf (hd hkeep)
      rw [hstay] at hds
      rw [List.filter_cons_of_neg (by simp [hkeep]), List.filter_cons_of_neg (by simp [hkeep]),
        hstay]
      exact ih hfg hf hds

end RuleDefinition

end BusinessRules

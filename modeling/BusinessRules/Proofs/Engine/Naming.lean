import Mathlib.Data.List.Forall2
import BusinessRules.Proofs.Document.Draft
import BusinessRules.Proofs.Engine.Compiled

/-!
# What rules are called

What a compiled rule does to a context depends neither on its identifier nor on its name.  The
identifiers of an engine's rules only tell which of them replace each other.  So engines that are
filled with the same rules under other identifiers give the same results, as long as rules that
have the same identifier in one of them have the same identifier in the other one.

## Main definitions

* `RuleDefinition.Alike`: definitions that differ only in identifier and name
* `Rule.Alike`: their rules, if the identifiers correspond
* `Draft.Fresh`: new identifiers that are new indeed
* `Draft.Paired`: the identifiers that drafts are given from two supplies

## Main statements

* `Rule.putIn_alike`: what adding a rule keeps, and by induction filling an engine
* `Session.evaluate_alike`: engines of rules that differ only in identifier and name
* `Session.evaluate_completed`: engines of drafts that are completed in two ways
-/

namespace BusinessRules

variable {β : Type} {ids : String → String → Prop}

/-! ## Definitions -/

namespace RuleDefinition

variable {d d' : RuleDefinition} {ds ds' : List RuleDefinition}

/-- Definitions that differ only in identifier and name. -/
def Alike (d d' : RuleDefinition) : Prop := d' = { d with id := d'.id, name := d'.name }

theorem Alike.run (h : d.Alike d') (env : Environment) (context : Context) :
    (d'.run env context).result = (d.run env context).result ∧
      (d'.run env context).context = (d.run env context).context := by
  have hcollection : d'.collection? = d.collection? := by rw [h]; rfl
  rw [RuleDefinition.run, RuleDefinition.run, hcollection]
  cases d.collection? with
  | none =>
    rw [h, runPlain, runPlain]
    dsimp only
    generalize (d.conditions.map (·.holds context)).getD (.ok true) = holds
    rcases holds with f | _ | _
    · exact ⟨rfl, rfl⟩
    · exact ⟨rfl, rfl⟩
    · exact ⟨rfl, rfl⟩
  | some collection =>
    have hcount : ∀ facts elements,
        (visitAll env facts d' elements).1 = (visitAll env facts d elements).1 := by
      intro facts elements
      rw [h, visitAll, visitAll]
      cases d.actions <;> rfl
    dsimp only
    rw [runEach, runEach]
    cases context.collection collection with
    | error f => exact ⟨rfl, rfl⟩
    | ok found =>
      dsimp only
      cases found.bind fun c => c.elements?.map (c, ·) with
      | none => exact ⟨rfl, rfl⟩
      | some p => exact ⟨by dsimp only; rw [hcount], rfl⟩

theorem runAll_alike (h : List.Forall₂ Alike ds ds') (env : Environment) (context : Context) :
    runAll env ds' context = runAll env ds context := by
  induction h generalizing context with
  | nil => rfl
  | cons hd _ ih =>
    obtain ⟨hresult, hcontext⟩ := hd.run env context
    rw [runAll, runAll, hresult, hcontext, ih]

end RuleDefinition

/-! ## Rules -/

theorem Rule.info_ofDefinition (d : RuleDefinition) :
    (ofDefinition d : Rule β).info = ⟨d.id, d.name, d.description, d.priority⟩ := by
  rw [ofDefinition]
  cases d.collection? <;> rfl

/-- Rules of definitions that differ only in identifier and name, their identifiers being related
in a given way. -/
def Rule.Alike (ids : String → String → Prop) (r r' : Rule β) : Prop :=
  ids r.id r'.id ∧ ∃ d d' : RuleDefinition, r = ofDefinition d ∧ r' = ofDefinition d' ∧ d.Alike d'

/-- Identifiers that are related one to one. -/
def OneToOne (ids : String → String → Prop) : Prop :=
  ∀ i i' j j', ids i i' → ids j j' → (i = j ↔ i' = j')

theorem Rule.Alike.priority_eq {r r' : Rule β} (h : r.Alike ids r') : r'.priority = r.priority := by
  obtain ⟨-, d, d', rfl, rfl, h⟩ := h
  rw [priority, priority, info_ofDefinition, info_ofDefinition, h]

/-- Adding rules that are alike to rules that are. -/
theorem Rule.putIn_alike (hids : OneToOne ids) {r r' : Rule β} (hr : r.Alike ids r')
    {rules rules' : List (Rule β)} (h : List.Forall₂ (Rule.Alike ids) rules rules') :
    List.Forall₂ (Rule.Alike ids) (r.putIn rules) (r'.putIn rules') := by
  induction h with
  | nil => exact .cons hr .nil
  | @cons s s' rest rest' hs hrest ih =>
    have hiff := hids _ _ _ _ hs.1 hr.1
    rw [putIn, putIn]
    by_cases hid : s.id = r.id
    · rw [if_pos hid, if_pos (hiff.1 hid)]
      exact .cons hr hrest
    · rw [if_neg hid, if_neg (fun h => hid (hiff.2 h))]
      exact .cons hs ih

/-- Lists that are sorted by orders that agree on related elements stay related. -/
theorem forall₂_mergeSort {α γ : Type} {R : α → γ → Prop} {le : α → α → Bool} {le' : γ → γ → Bool}
    (hle : ∀ a b c d, R a c → R b d → le a b = le' c d) {xs : List α} {ys : List γ}
    (h : List.Forall₂ R xs ys) : List.Forall₂ R (xs.mergeSort le) (ys.mergeSort le') := by
  obtain ⟨ps, hps, rfl, rfl⟩ :
      ∃ ps : List (α × γ), (∀ p ∈ ps, R p.1 p.2) ∧ ps.map Prod.fst = xs ∧ ps.map Prod.snd = ys := by
    induction h with
    | nil => exact ⟨[], nofun, rfl, rfl⟩
    | @cons x y _ _ hxy _ ih =>
      obtain ⟨ps, hps, rfl, rfl⟩ := ih
      exact ⟨(x, y) :: ps, List.forall_mem_cons.2 ⟨hxy, hps⟩, rfl, rfl⟩
  rw [← List.map_mergeSort (r := fun p q => le p.1 q.1) fun _ _ _ _ => rfl,
    ← List.map_mergeSort (r := fun p q => le p.1 q.1) fun p hp q hq =>
      hle p.1 q.1 p.2 q.2 (hps p hp) (hps q hq),
    List.forall₂_map_left_iff, List.forall₂_map_right_iff, List.forall₂_same]
  exact fun p hp => hps p (List.mem_mergeSort.1 hp)

theorem Registry.ordered_alike {registry registry' : Registry β}
    (h : List.Forall₂ (Rule.Alike ids) registry.rules registry'.rules) :
    List.Forall₂ (Rule.Alike ids) registry.ordered registry'.ordered := by
  refine forall₂_mergeSort (fun r s r' s' hr hs => ?_) h
  rw [hr.priority_eq, hs.priority_eq]

theorem Rule.exists_definitions_of_alike {rules rules' : List (Rule β)}
    (h : List.Forall₂ (Rule.Alike ids) rules rules') :
    ∃ ds ds', rules = ds.map ofDefinition ∧ rules' = ds'.map ofDefinition ∧
      List.Forall₂ RuleDefinition.Alike ds ds' := by
  induction h with
  | nil => exact ⟨[], [], rfl, rfl, .nil⟩
  | cons hr _ ih =>
    obtain ⟨-, d, d', rfl, rfl, hd⟩ := hr
    obtain ⟨ds, ds', rfl, rfl, hds⟩ := ih
    exact ⟨d :: ds, d' :: ds', rfl, rfl, .cons hd hds⟩

/-! ## Engines -/

namespace Session

variable {s s' : Session β}

theorem contexts_addDefinitions (s : Session β) (ds : List RuleDefinition) :
    (s.addDefinitions ds).contexts = s.contexts := by
  rw [addDefinitions]
  induction ds generalizing s with
  | nil => rfl
  | cons d ds ih => exact ih (s.addRule (Rule.ofDefinition d))

theorem addDefinitions_alike (hids : OneToOne ids) {ds ds' : List RuleDefinition}
    (hds : List.Forall₂ (fun d d' => ids d.id d'.id ∧ d.Alike d') ds ds')
    (h : List.Forall₂ (Rule.Alike ids) s.registry.rules s'.registry.rules) :
    List.Forall₂ (Rule.Alike ids) (s.addDefinitions ds).registry.rules
      (s'.addDefinitions ds').registry.rules := by
  induction hds generalizing s s' with
  | nil => exact h
  | @cons d d' _ _ hd _ ih =>
    refine ih (Rule.putIn_alike hids ⟨?_, d, d', rfl, rfl, hd.2⟩ h)
    rw [Rule.id, Rule.id, Rule.info_ofDefinition, Rule.info_ofDefinition]
    exact hd.1

/-- **Engines whose rules differ only in identifier and name** give the same results and leave the
same contexts. -/
theorem evaluate_alike (hs : s.Compiled) (hs' : s'.Compiled) (hcontexts : s.contexts = s'.contexts)
    (hrules : List.Forall₂ (Rule.Alike ids) s.registry.rules s'.registry.rules) (h : Handlers β)
    (env : Environment) (mode : Mode) (name : Option String) :
    (s.evaluate h env mode name).1 = (s'.evaluate h env mode name).1 ∧
      ∀ other, (s.evaluate h env mode name).2.context other =
        (s'.evaluate h env mode name).2.context other := by
  have htarget : s.target? name = s'.target? name := by
    simp only [target?, context, hcontexts]
  rw [evaluate, evaluate, htarget]
  cases s'.target? name with
  | none =>
    exact ⟨rfl, fun other => by rw [context, context, hcontexts]⟩
  | some name =>
    obtain ⟨ds, ds', hds, hds', hlike⟩ :
        ∃ ds ds', s.registry.ordered = ds.map Rule.ofDefinition ∧
          s'.registry.ordered = ds'.map Rule.ofDefinition ∧
          List.Forall₂ RuleDefinition.Alike ds ds' :=
      Rule.exists_definitions_of_alike (Registry.ordered_alike hrules)
    obtain ⟨t, hevaluate, ht⟩ := evaluateRules_ofDefinition h env mode name ds hs.evaluating
      hs.evaluated
    obtain ⟨t', hevaluate', ht'⟩ := evaluateRules_ofDefinition h env mode name ds' hs'.evaluating
      hs'.evaluated
    have hcontext : ∀ other, s.context other = s'.context other :=
      fun other => by rw [context, context, hcontexts]
    rw [← hcontext, RuleDefinition.runAll_alike hlike] at hevaluate' ht'
    dsimp only
    rw [hds, hds', hevaluate, hevaluate']
    refine ⟨rfl, fun other => ?_⟩
    by_cases hother : other = name
    · rw [hother, ht.context_eq, ht'.context_eq]
    · rw [ht.context_of_ne other hother, ht'.context_of_ne other hother, hcontext]

end Session

/-! ## Drafts -/

/-- New identifiers that differ from each other and from those that drafts have. -/
structure Draft.Fresh (newId : Nat → String) (ts : List Draft) : Prop where
  injective : Function.Injective newId
  ne_id : ∀ t ∈ ts, ∀ i, t.id ≠ some (newId i)

/-- The identifiers that drafts are given from two supplies: two new ones, or twice their own. -/
def Draft.Paired (newId newId' : Nat → String) (ts : List Draft) (i i' : String) : Prop :=
  (∃ n, i = newId n ∧ i' = newId' n) ∨ i = i' ∧ ∃ t ∈ ts, t.id = some i

theorem Draft.oneToOne_paired {newId newId' : Nat → String} {ts : List Draft}
    (h : Fresh newId ts) (h' : Fresh newId' ts) : OneToOne (Paired newId newId' ts) := by
  rintro i i' j j' (⟨m, rfl, rfl⟩ | ⟨rfl, t, ht, hti⟩) (⟨n, rfl, rfl⟩ | ⟨rfl, u, hu, huj⟩)
  · rw [h.injective.eq_iff, h'.injective.eq_iff]
  · have hne : newId m ≠ j := fun heq => h.ne_id u hu m (heq ▸ huj)
    have hne' : newId' m ≠ j := fun heq => h'.ne_id u hu m (heq ▸ huj)
    rw [iff_false_left hne]
    exact hne'
  · have hne : i ≠ newId n := fun heq => h.ne_id t ht n (heq ▸ hti)
    have hne' : i ≠ newId' n := fun heq => h'.ne_id t ht n (heq ▸ hti)
    rw [iff_false_left hne]
    exact hne'
  · rfl

theorem Draft.alike_completeFrom (newId newId' : Nat → String) (ts : List Draft) (start : Nat) :
    List.Forall₂ (fun d d' => Paired newId newId' ts d.id d'.id ∧ d.Alike d')
      (completeFrom newId start ts) (completeFrom newId' start ts) := by
  have hfrom : ∀ us : List Draft, (∀ t ∈ us, t ∈ ts) → ∀ start,
      List.Forall₂ (fun d d' => Paired newId newId' ts d.id d'.id ∧ d.Alike d')
        (completeFrom newId start us) (completeFrom newId' start us) := by
    intro us hus
    induction us with
    | nil => exact fun _ => .nil
    | cons t us ih =>
      intro start
      rw [List.forall_mem_cons] at hus
      refine .cons ⟨?_, rfl⟩ (ih hus.2 (start + 1))
      cases hid : t.id with
      | none => exact .inl ⟨start, by simp [complete, hid], by simp [complete, hid]⟩
      | some i => exact .inr ⟨by simp [complete, hid], t, hus.1, by simp [complete, hid]⟩
  exact hfrom ts (fun _ ht => ht) start

/-- **Engines of drafts that are completed in two ways**: whatever the new identifiers are, the
results are the same, and so are the contexts that are left. -/
theorem Session.evaluate_completed {newId newId' : Nat → String} {ts : List Draft}
    (hfresh : Draft.Fresh newId ts) (hfresh' : Draft.Fresh newId' ts)
    (contexts : List (String × Context)) (log log' : List LogEntry) (h : Handlers β)
    (env : Environment) (mode : Mode) (name : Option String) :
    let s := ((start contexts : Session β).report log).addDefinitions
      (Draft.completeFrom newId 0 ts)
    let s' := ((start contexts : Session β).report log').addDefinitions
      (Draft.completeFrom newId' 0 ts)
    (s.evaluate h env mode name).1 = (s'.evaluate h env mode name).1 ∧
      ∀ other, (s.evaluate h env mode name).2.context other =
        (s'.evaluate h env mode name).2.context other := by
  intro s s'
  have hstart : ∀ log, ((start contexts : Session β).report log).Compiled :=
    fun _ => ⟨fun _ hr => absurd hr List.not_mem_nil, rfl, rfl⟩
  refine evaluate_alike ((hstart log).addDefinitions _) ((hstart log').addDefinitions _) ?_
    (addDefinitions_alike (Draft.oneToOne_paired hfresh hfresh')
      (Draft.alike_completeFrom newId newId' ts 0) .nil) h env mode name
  rw [contexts_addDefinitions, contexts_addDefinitions]
  rfl

end BusinessRules

import BusinessRules.Proofs.Engine.Compiled
import BusinessRules.Proofs.Engine.History

/-!
# Removing rules that leave no trace

In an engine of compiled rules those that iterate over a collection and those that were skipped can
be removed without a difference to the others: evaluated in an equal context, each remaining rule
gives the result that it gave before, in the same order, and the same data are bound in the end.
Streams are excepted, because a loop uses them up.

## Main definitions

* `Session.removeRules`: a session after the removal of some rules
* `Rule.iterates`: whether a rule iterates over a collection

## Main statements

* `rules_removeRules`: what the removal leaves in the registry
* `evaluate_removeRules`: the evaluation that is left
-/

namespace BusinessRules

open Session

variable {β : Type} {env : Environment} {mode : Mode} {name : String}

/-- Whether a rule iterates over a collection. -/
def Rule.iterates : Rule β → Bool
  | «foreach» .. => true
  | _ => false

theorem Rule.iterates_ofDefinition (d : RuleDefinition) :
    (ofDefinition d : Rule β).iterates = d.collection?.isSome := by
  rw [ofDefinition]
  cases d.collection? <;> rfl

theorem RuleResult.status_eq_skipped_iff (r : RuleResult) :
    r.status = .skipped ↔ r.isSkipped = true := by
  rw [status, isSkipped]
  cases r.success <;> cases ((r.data.get? "skipped").map Datum.isFilled).getD false <;> simp

namespace Session

variable {s t : Session β}

/-- The session after rules have been removed one after the other. -/
def removeRules (s : Session β) (ids : List String) : Session β :=
  ids.foldl (fun s id => (s.removeRule id).2) s

/-! ## What a removal leaves -/

theorem removeRule_snd (s : Session β) (id : String) :
    (s.removeRule id).2.evaluating = s.evaluating ∧ (s.removeRule id).2.evaluated = s.evaluated ∧
      (s.removeRule id).2.contexts = s.contexts := by
  rw [removeRule]
  split <;> exact ⟨rfl, rfl, rfl⟩

theorem removeRules_cons (s : Session β) (id : String) (ids : List String) :
    s.removeRules (id :: ids) = (s.removeRule id).2.removeRules ids := rfl

theorem exists_rules_removeRules (s : Session β) (ids : List String) :
    ∃ keep : String → Bool, (s.removeRules ids).registry.rules =
      s.registry.rules.filter fun r => keep r.id := by
  induction ids generalizing s with
  | nil => exact ⟨fun _ => true, (List.filter_eq_self.2 fun _ _ => rfl).symm⟩
  | cons id ids ih =>
    obtain ⟨keep, hkeep⟩ := ih (s.removeRule id).2
    refine ⟨fun i => keep i && !(Change.remove id : Change β).drops i, ?_⟩
    rw [removeRules_cons, hkeep, rules_removeRule, List.filter_filter]

/-- **What a removal leaves in the registry**: the rules that are still there, as they stood. -/
theorem rules_removeRules (s : Session β) (ids : List String) :
    (s.removeRules ids).registry.rules =
      s.registry.rules.filter fun r => (s.removeRules ids).registry.contains r.id := by
  obtain ⟨keep, hkeep⟩ := s.exists_rules_removeRules ids
  rw [hkeep]
  refine List.filter_congr fun r hr => ?_
  rw [Bool.eq_iff_iff, Registry.contains_iff, hkeep, List.mem_map]
  constructor
  · intro hkept
    exact ⟨r, List.mem_filter.2 ⟨hr, hkept⟩, rfl⟩
  · rintro ⟨r', hr', hid⟩
    rw [← hid]
    exact (List.mem_filter.1 hr').2

theorem removeRules_listeners (s : Session β) (ids : List String) :
    (s.removeRules ids).evaluating = s.evaluating ∧
      (s.removeRules ids).evaluated = s.evaluated := by
  induction ids generalizing s with
  | nil => exact ⟨rfl, rfl⟩
  | cons id ids ih =>
    obtain ⟨hevaluating, hevaluated, -⟩ := s.removeRule_snd id
    rw [removeRules_cons, (ih _).1, (ih _).2]
    exact ⟨hevaluating, hevaluated⟩

theorem Compiled.removeRules (hs : s.Compiled) (ids : List String) :
    (s.removeRules ids).Compiled := by
  obtain ⟨hevaluating, hevaluated⟩ := s.removeRules_listeners ids
  refine ⟨fun r hr => hs.rules r ?_, hevaluating.trans hs.evaluating,
    hevaluated.trans hs.evaluated⟩
  rw [rules_removeRules] at hr
  exact (List.mem_filter.1 hr).1

theorem Compiled.withContext (hs : s.Compiled) (name : String) (c : Context) :
    (s.withContext name c).Compiled := ⟨hs.rules, hs.evaluating, hs.evaluated⟩

/-! ## The evaluation that is left -/

/-- **Rules that leave no trace can be removed**: the rules that iterate, and those that were
skipped in the evaluation.  Whichever of them are removed, the evaluation of the others in a context
that binds the same data gives each the result that it had, in the same order, and leaves the same
data bound. -/
theorem evaluate_removeRules (hs : s.Compiled) {f : Facts} (hcontext : s.context name = .facts f)
    (hf : f.Lasting) (h : Handlers β) (env : Environment) (mode : Mode) :
    ∃ results t f', s.evaluate h env mode (some name) = (.ok results, t) ∧
      results.length = s.registry.size ∧ t.context name = .facts f' ∧
      ∀ (ids : List String) (other : String) (g : Facts), (∀ n, g.get? n = f.get? n) →
        (∀ p ∈ s.registry.ordered.zip results,
          (s.removeRules ids).registry.contains p.1.id = false →
            p.1.iterates = true ∨ p.2.status = .skipped) →
        ∃ results' t' g',
          ((s.removeRules ids).withContext other (.facts g)).evaluate h env mode (some other) =
            (.ok results', t') ∧
          results'.length = (s.removeRules ids).registry.size ∧
          (s.removeRules ids).registry.ordered.zip results' =
            (s.registry.ordered.zip results).filter
              (fun p => (s.removeRules ids).registry.contains p.1.id) ∧
          t'.context other = .facts g' ∧ ∀ n, g'.get? n = f'.get? n := by
  obtain ⟨ds, hds⟩ := hs.exists_definitions
  obtain ⟨t, hevaluate, ht⟩ := hs.evaluate hcontext hds h env mode
  obtain ⟨f', hf'⟩ := RuleDefinition.exists_facts_runAll env ds f
  have hsize : ds.length = s.registry.size := by
    rw [Registry.size, ← s.registry.ordered_perm.length_eq, hds, List.length_map]
  refine ⟨_, t, f', hevaluate, by rw [RuleDefinition.length_runAll, hsize],
    by rw [ht.context_eq, hf'], fun ids other g hg hdropped => ?_⟩
  -- What stays is told by the identifiers of definitions.
  let keep (d : RuleDefinition) : Bool :=
    (s.removeRules ids).registry.contains (Rule.ofDefinition d : Rule β).id
  have hkept : (s.removeRules ids).registry.ordered = (ds.filter keep).map Rule.ofDefinition := by
    rw [Registry.ordered_filter (s.rules_removeRules ids), hds, List.filter_map]
    rfl
  have htraceless : ∀ p ∈ ds.zip (RuleDefinition.runAll env ds (.facts f)).1, keep p.1 = false →
      p.1.Traceless p.2 := by
    intro p hp hkeep
    have hmem : (Rule.ofDefinition p.1, p.2) ∈
        s.registry.ordered.zip (RuleDefinition.runAll env ds (.facts f)).1 := by
      rw [hds, List.zip_map_left]
      exact List.mem_map_of_mem hp
    rcases hdropped _ hmem hkeep with hiterates | hskipped
    · exact .inl (Rule.iterates_ofDefinition p.1 ▸ hiterates)
    · exact .inr ((RuleResult.status_eq_skipped_iff p.2).1 hskipped)
  obtain ⟨hzip, f'', g', hf'', hg', hfg'⟩ :=
    RuleDefinition.runAll_filter keep (fun n _ => (hg n).symm) hf htraceless
  obtain ⟨t', hevaluate', ht'⟩ :=
    ((hs.removeRules ids).withContext other (.facts g)).evaluate
      (context_withContext _ other (.facts g)) hkept h env mode
  rw [hf'] at hf''
  cases hf''
  refine ⟨_, t', g', hevaluate', ?_, ?_, by rw [ht'.context_eq, hg'],
    fun n => (hfg' n List.not_mem_nil).symm⟩
  · rw [RuleDefinition.length_runAll, Registry.size, ← Registry.ordered_perm _ |>.length_eq, hkept,
      List.length_map]
  · rw [hkept, hds, List.zip_map_left, List.zip_map_left, hzip, List.filter_map]
    rfl

/-- Facts about a booking. -/
def bookingFacts : Facts :=
  ⟨[("nights", .int 1), ("fees", .list [.int 2, .int 3]), ("fee", .int 0)]⟩

/-- Four rules: one iterates, one is skipped, one fails after its first action, and the last one
reads what that action bound. -/
def bookingRules : List RuleDefinition :=
  [⟨"each", "each", "", 3, none, some [.compute "fee = fee + item"], some "fees"⟩,
    ⟨"long", "long", "", 2, some ⟨some [⟨"nights", .gt, .int 5⟩], none⟩,
      some [.compute "nights = 5"], none⟩,
    ⟨"price", "price", "", 1, none, some [.compute "price = nights * 50", .compute "x = lost"],
      none⟩,
    ⟨"total", "total", "", 0, none, some [.compute "total = price + fee"], none⟩]

/-- An engine with these rules. -/
def booking : Session Empty := (start [("c", .facts bookingFacts)]).addDefinitions bookingRules

/-- This engine without the first two rules. -/
def shortBooking : Session Empty := booking.removeRules ["each", "long"]

/-- The other two do what they did, the failure included. -/
theorem evaluate_removeRules_booking : ∃ results t f' results' t' g',
    booking.evaluate plainHandlers [] .sync (some "c") = (.ok results, t) ∧
      results.map RuleResult.status = [.matched, .skipped, .failed, .matched] ∧
      (shortBooking.withContext "d" (.facts bookingFacts)).evaluate plainHandlers [] .sync
        (some "d") = (.ok results', t') ∧
      shortBooking.registry.ordered.zip results' =
        (booking.registry.ordered.zip results).filter
          (fun p => shortBooking.registry.contains p.1.id) ∧
      t.context "c" = .facts f' ∧ t'.context "d" = .facts g' ∧ ∀ n, g'.get? n = f'.get? n := by
  have hordered : booking.registry.ordered = bookingRules.map Rule.ofDefinition :=
    (Registry.eq_ordered .rfl (by decide)).symm
  have hcompiled : booking.Compiled := compiled_addDefinitions ..
  have hlasting : bookingFacts.Lasting := by
    intro n rest
    simp only [Facts.get?, bookingFacts, List.lookup]
    split <;> [skip; split <;> [skip; split]] <;> simp
  have hstart : booking.context "c" = .facts bookingFacts := rfl
  obtain ⟨results, t, f', hevaluate, -, hcontext, hremove⟩ :=
    evaluate_removeRules hcompiled hstart hlasting plainHandlers [] .sync
  obtain ⟨u, hrun, -⟩ := hcompiled.evaluate hstart hordered plainHandlers [] .sync
  obtain ⟨hresults, -⟩ := Prod.mk.inj (hevaluate.symm.trans hrun)
  have hstatus : results.map RuleResult.status = [.matched, .skipped, .failed, .matched] := by
    rw [Except.ok.inj hresults]
    decide +kernel
  -- Whether a rule may be removed depends on the rule and the status of its result.
  have hdropped : ∀ p ∈ booking.registry.ordered.zip (results.map RuleResult.status),
      shortBooking.registry.contains p.1.id = false → p.1.iterates = true ∨ p.2 = .skipped := by
    rw [hordered, hstatus]
    decide
  obtain ⟨results', t', g', hevaluate', -, hzip', hcontext', hsame⟩ :=
    hremove ["each", "long"] "d" bookingFacts (fun _ => rfl) fun p hp => by
      rw [List.zip_map_right] at hdropped
      exact hdropped _ (List.mem_map_of_mem hp)
  exact ⟨results, t, f', results', t', g', hevaluate, hstatus, hevaluate', hzip', hcontext,
    hcontext', hsame⟩

end Session

end BusinessRules

import Mathlib.Data.List.Sort
import BusinessRules.Engine.Registry

/-!
# The order of evaluation

Rules are evaluated by descending priority, and rules of one priority in the order of the registry.
The two halves of this rule determine the order.

## Main definitions

* `Registry.Precedes`: whether a rule is evaluated before another one

## Main statements

* `ordered_sorted`: priorities descend
* `filter_ordered`: rules of one priority stand as they do in the registry
* `ordered_precedes`, `eq_ordered`: the order of evaluation is the one in which rules precede others
* `ordered_filter`: rules that stay behind when others are removed keep their order
-/

namespace BusinessRules.Registry

variable {β : Type} {registry : Registry β}

theorem ordered_perm (registry : Registry β) : registry.ordered.Perm registry.rules :=
  List.mergeSort_perm ..

theorem mem_ordered {rule : Rule β} : rule ∈ registry.ordered ↔ rule ∈ registry.rules :=
  registry.ordered_perm.mem_iff

theorem priority_trans (r s t : Rule β) (hrs : decide (s.priority ≤ r.priority) = true)
    (hst : decide (t.priority ≤ s.priority) = true) : decide (t.priority ≤ r.priority) = true := by
  rw [decide_eq_true_eq] at hrs hst ⊢
  exact hst.trans hrs

theorem priority_total (r s : Rule β) :
    (decide (s.priority ≤ r.priority) || decide (r.priority ≤ s.priority)) = true := by
  rw [Bool.or_eq_true, decide_eq_true_eq, decide_eq_true_eq]
  exact le_total _ _

/-- **Priorities descend.** -/
theorem ordered_sorted (registry : Registry β) :
    registry.ordered.Pairwise fun r s => s.priority ≤ r.priority :=
  (List.pairwise_mergeSort priority_trans priority_total registry.rules).imp of_decide_eq_true

/-- **Rules of one priority stand as they do in the registry.** -/
theorem filter_ordered (registry : Registry β) (p : Int) :
    (registry.ordered.filter fun r => r.priority = p) =
      registry.rules.filter fun r => r.priority = p := by
  have hsorted : (registry.rules.filter fun r => r.priority = p).Pairwise
      fun r s => decide (s.priority ≤ r.priority) = true := by
    refine List.pairwise_of_forall_mem_list fun r hr s hs => ?_
    have hpr : r.priority = p := by simpa using (List.mem_filter.1 hr).2
    have hps : s.priority = p := by simpa using (List.mem_filter.1 hs).2
    rw [hpr, hps]
    exact decide_eq_true le_rfl
  -- They are a part of the sorted list in this order, and there are no others in it.
  have hsublist : List.Sublist (registry.rules.filter fun r => r.priority = p) registry.ordered :=
    List.sublist_mergeSort priority_trans priority_total hsorted List.filter_sublist
  have hfilter := hsublist.filter fun r => r.priority = p
  rw [List.filter_filter] at hfilter
  simp only [Bool.and_self] at hfilter
  refine (hfilter.eq_of_length ?_).symm
  exact (registry.ordered_perm.filter _).symm.length_eq

/-- Of two rules one comes first that has the higher priority, or the same one and stands first in
the registry. -/
theorem ordered_pairwise {elder : String → String → Prop}
    (h : (registry.rules.map Rule.id).Pairwise elder) :
    registry.ordered.Pairwise fun r s =>
      s.priority < r.priority ∨ s.priority = r.priority ∧ elder r.id s.id := by
  refine List.pairwise_of_forall_sublist fun {r s} hsub => ?_
  have hle : s.priority ≤ r.priority :=
    List.pairwise_iff_forall_sublist.1 registry.ordered_sorted hsub
  refine hle.lt_or_eq.imp_right fun heq => ⟨heq, ?_⟩
  have hfilter := hsub.filter fun x : Rule β => x.priority = r.priority
  rw [filter_ordered, List.filter_cons_of_pos (by simp),
    List.filter_cons_of_pos (by simpa using heq)] at hfilter
  exact List.pairwise_iff_forall_sublist.1 (List.pairwise_map.1 h)
    (hfilter.trans List.filter_sublist)

/-! ## The order as a relation -/

/-- Whether an identifier came in before another one. -/
def Earlier (registry : Registry β) (i j : String) : Prop :=
  (registry.rules.map Rule.id).idxOf i < (registry.rules.map Rule.id).idxOf j

/-- Whether a rule is evaluated before another one. -/
def Precedes (registry : Registry β) (r s : Rule β) : Prop :=
  s.priority < r.priority ∨ s.priority = r.priority ∧ registry.Earlier r.id s.id

instance (registry : Registry β) (r s : Rule β) : Decidable (registry.Precedes r s) :=
  inferInstanceAs (Decidable (_ ∨ _ ∧ _ < _))

/-- Identifiers came in one after the other. -/
theorem pairwise_earlier (registry : Registry β) :
    (registry.rules.map Rule.id).Pairwise registry.Earlier := by
  rw [List.pairwise_iff_getElem]
  intro i j hi hj hij
  rw [Earlier, registry.nodup.idxOf_getElem, registry.nodup.idxOf_getElem]
  exact hij

theorem Precedes.asymm {r s : Rule β} (hrs : registry.Precedes r s) : ¬ registry.Precedes s r := by
  intro hsr
  simp only [Precedes, Earlier] at hrs hsr
  omega

/-- **Rules are evaluated by priority, and by their entry among equals.** -/
theorem ordered_precedes (registry : Registry β) :
    registry.ordered.Pairwise registry.Precedes :=
  ordered_pairwise registry.pairwise_earlier

/-- **No other list of the rules has this property.** -/
theorem eq_ordered {rules : List (Rule β)} (hperm : rules.Perm registry.rules)
    (h : rules.Pairwise registry.Precedes) : rules = registry.ordered :=
  List.Perm.eq_of_pairwise (fun _ _ _ _ hrs hsr => absurd hsr hrs.asymm) h
    registry.ordered_precedes (hperm.trans registry.ordered_perm.symm)

/-- **Rules that stay behind keep their order.** -/
theorem ordered_filter {registry' : Registry β} {keep : Rule β → Bool}
    (hrules : registry'.rules = registry.rules.filter keep) :
    registry'.ordered = registry.ordered.filter keep := by
  have hearlier : (registry'.rules.map Rule.id).Pairwise registry.Earlier := by
    rw [hrules]
    exact registry.pairwise_earlier.sublist (List.filter_sublist.map Rule.id)
  have hperm : registry'.ordered.Perm (registry.ordered.filter keep) := by
    refine registry'.ordered_perm.trans ?_
    rw [hrules]
    exact (registry.ordered_perm.filter keep).symm
  exact List.Perm.eq_of_pairwise (fun _ _ _ _ hrs hsr => absurd hsr (Precedes.asymm hrs))
    (ordered_pairwise hearlier) (registry.ordered_precedes.sublist List.filter_sublist) hperm

end BusinessRules.Registry

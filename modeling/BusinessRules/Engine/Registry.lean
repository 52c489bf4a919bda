import BusinessRules.Engine.Rule

/-!
# The registry of rules

The registry holds one rule per identifier, in the order in which the identifiers came in.  A rule
that replaces another one keeps its place.  Rules are evaluated by descending priority, and in
registry order among equals.

## Main definitions

* `Registry`: the registry
* `Registry.add`, `Registry.remove`, `Registry.get?`, `Registry.contains`, `Registry.size`
* `Registry.ordered`: the rules in the order of evaluation

## Main statements

* `Rule.ids_putIn`: what adding a rule does to the order of the identifiers
-/

namespace BusinessRules

variable {β : Type}

/-- Put a rule into a list: in the place of the one with its identifier, else at the end. -/
def Rule.putIn (rule : Rule β) : List (Rule β) → List (Rule β)
  | [] => [rule]
  | r :: rest => if r.id = rule.id then rule :: rest else r :: rule.putIn rest

/-- A rule that replaces another one changes no identifier; any other rule comes last. -/
theorem Rule.ids_putIn (rule : Rule β) (rules : List (Rule β)) :
    (rule.putIn rules).map Rule.id =
      if rule.id ∈ rules.map Rule.id then rules.map Rule.id
      else rules.map Rule.id ++ [rule.id] := by
  induction rules with
  | nil => rfl
  | cons r rest ih =>
    unfold putIn
    by_cases h : r.id = rule.id
    · simp [h]
    · have h' : rule.id ≠ r.id := Ne.symm h
      simp only [h, if_false, List.map_cons, ih, List.mem_cons, h', false_or]
      split <;> rfl

theorem Rule.nodup_putIn (rule : Rule β) {rules : List (Rule β)}
    (h : (rules.map Rule.id).Nodup) : ((rule.putIn rules).map Rule.id).Nodup := by
  rw [ids_putIn]
  split
  · exact h
  · next hn =>
    refine List.nodup_append.2 ⟨h, by simp, ?_⟩
    rintro a ha b hb rfl
    exact hn (List.mem_singleton.1 hb ▸ ha)

/-- One rule per identifier, in the order in which the identifiers came in. -/
structure Registry (β : Type) where
  rules : List (Rule β)
  nodup : (rules.map Rule.id).Nodup

namespace Registry

/-- The registry without rules. -/
def empty : Registry β := ⟨[], List.nodup_nil⟩

/-- The rule of an identifier. -/
def get? (registry : Registry β) (id : String) : Option (Rule β) :=
  registry.rules.find? fun r => r.id = id

/-- Whether an identifier has a rule. -/
def contains (registry : Registry β) (id : String) : Bool := (registry.get? id).isSome

/-- The number of rules. -/
def size (registry : Registry β) : Nat := registry.rules.length

/-- Add a rule. -/
def add (registry : Registry β) (rule : Rule β) : Registry β :=
  ⟨rule.putIn registry.rules, rule.nodup_putIn registry.nodup⟩

/-- Remove the rule of an identifier. -/
def remove (registry : Registry β) (id : String) : Registry β :=
  ⟨registry.rules.filter fun r => r.id ≠ id,
    registry.nodup.sublist (List.filter_sublist.map Rule.id)⟩

/-- The rules in the order of evaluation. -/
def ordered (registry : Registry β) : List (Rule β) :=
  registry.rules.mergeSort fun r s => s.priority ≤ r.priority

end Registry

end BusinessRules

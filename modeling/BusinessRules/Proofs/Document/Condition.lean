import BusinessRules.Document.RuleSet

/-!
# What a condition says

The fields of a mapping are found by their keys, so their order does not matter.  A condition
spells its comparison in one of two ways: the operator is the key of the datum, or both stand under
keys of their own.  The reader goes through the entries one by one; among the fields of a condition
that compares in one way it meets at most one that matters.

## Main definitions

* `Datum.object`: mappings with texts as keys
* `RuleSet.IsCondition`: the conditions of a rule
* `RuleSet.Spells`: the two ways in which fields spell a comparison
* `RuleSet.Comparing`: the fields of a condition that compares in one way

## Main statements

* `Datum.lookup_perm`: fields in another order
* `RuleSet.Comparing.spelling`: what a condition says, whatever the order of its fields
-/

namespace BusinessRules

namespace Datum

/-! ## Fields -/

/-- The entries of fields. -/
def entriesOf (fields : List (String × Datum)) : List (Datum × Datum) :=
  fields.map fun (key, d) => (.text key, d)

/-- A mapping with texts as keys. -/
def object (fields : List (String × Datum)) : Datum := .map (entriesOf fields)

theorem field?_entriesOf (fields : List (String × Datum)) (key : String) :
    field? (entriesOf fields) key = fields.lookup key := by
  induction fields with
  | nil => rfl
  | cons e fields ih =>
    obtain ⟨k, d⟩ := e
    rw [entriesOf, List.map_cons, field?, List.lookup_cons, ← ih, entriesOf]
    by_cases h : k = key
    · simp [h]
    · have hne : (key == k) = false := beq_eq_false_iff_ne.2 (Ne.symm h)
      simp [h, hne]

/-- The order of fields does not matter where no key comes twice. -/
theorem lookup_perm {fields fields' : List (String × Datum)} (h : fields.Perm fields')
    (hnodup : (fields.map Prod.fst).Nodup) (key : String) :
    fields.lookup key = fields'.lookup key := by
  induction h with
  | nil => rfl
  | cons e _ ih =>
    rw [List.map_cons, List.nodup_cons] at hnodup
    rw [List.lookup_cons, List.lookup_cons, ih hnodup.2]
  | swap e e' fields =>
    obtain ⟨k, d⟩ := e
    obtain ⟨k', d'⟩ := e'
    rw [List.map_cons, List.map_cons, List.nodup_cons, List.mem_cons, not_or] at hnodup
    simp only [List.lookup_cons]
    by_cases hk : key = k
    · have hne : (key == k') = false := beq_eq_false_iff_ne.2 fun h => hnodup.1.1 (h.symm.trans hk)
      simp [hne]
    · have hne : (key == k) = false := beq_eq_false_iff_ne.2 hk
      simp [hne]
  | trans h _ ih ih' => exact (ih hnodup).trans (ih' ((h.map Prod.fst).nodup_iff.1 hnodup))

theorem all_isText_entriesOf (fields : List (String × Datum)) :
    ((entriesOf fields).all fun e => RuleSet.isText e.1) = true := by
  simp [entriesOf, RuleSet.isText]

end Datum

namespace RuleSet

open Datum

/-! ## Conditions -/

/-- The conditions of a rule: the items of its two lists. -/
def IsCondition (entries : List (Datum × Datum)) (d : Datum) : Prop :=
  ∃ group items key, field entries "conditions" = .map group ∧ (key = "all" ∨ key = "any") ∧
    field group key = .list items ∧ d ∈ items

/-- The fields by which a condition compares: either the operator is the key of the datum, or both
stand under keys of their own. -/
inductive Spells (operator : String) (d : Datum) : List (String × Datum) → Prop
  | key (h : isOperatorKey operator = true) : Spells operator d [(operator, d)]
  | fields : Spells operator d [("op", .text operator), ("value", d)]

/-- Whether a key plays a part in a comparison. -/
def isComparing (key : String) : Bool := key = "op" || key = "value" || isOperatorKey key

/-- The fields of a condition that compares in one way, in any order, with no other field that
plays a part in it. -/
structure Comparing (operator : String) (d : Datum) (others fields : List (String × Datum)) :
    Prop where
  nodup : (fields.map Prod.fst).Nodup
  not_isComparing : ∀ e ∈ others, isComparing e.1 = false
  perm : ∃ comparing, Spells operator d comparing ∧ fields.Perm (comparing ++ others)

variable {operator : String} {d : Datum} {others fields : List (String × Datum)}

theorem isOperatorKey_of_not_isComparing {key : String} (h : isComparing key = false) :
    isOperatorKey key = false := by
  rw [isComparing, Bool.or_eq_false_iff] at h
  exact h.2

theorem lookup_others (h : ∀ e ∈ others, isComparing e.1 = false) {key : String}
    (hkey : isComparing key = true) : others.lookup key = none := by
  rw [List.lookup_eq_none_iff]
  intro e he
  have hne : key ≠ e.1 := fun heq => by
    rw [heq, h e he] at hkey
    cases hkey
  simpa using hne

/-- What an entry adds whose key is no operator: nothing. -/
theorem addEntry_of_not_operator {key : String} (h : isOperatorKey key = false) (s : Spelling)
    (d : Datum) : s.addEntry (.text key, d) = s := by
  simp [Spelling.addEntry, h]

theorem foldl_addEntry_of_not_operator (h : ∀ e ∈ fields, isOperatorKey e.1 = false)
    (s : Spelling) : (entriesOf fields).foldl Spelling.addEntry s = s := by
  induction fields generalizing s with
  | nil => rfl
  | cons e fields ih =>
    rw [List.forall_mem_cons] at h
    rw [entriesOf, List.map_cons, List.foldl_cons, addEntry_of_not_operator h.1]
    exact ih h.2 s

/-- The order of entries does not matter where one operator at most is a key. -/
theorem foldl_addEntry_perm {fields' : List (String × Datum)} (h : fields.Perm fields')
    (hone : ∀ e ∈ fields, ∀ e' ∈ fields, isOperatorKey e.1 = true → isOperatorKey e'.1 = true →
      e = e') (s : Spelling) :
    (entriesOf fields).foldl Spelling.addEntry s =
      (entriesOf fields').foldl Spelling.addEntry s := by
  rw [entriesOf, entriesOf, List.foldl_map, List.foldl_map]
  refine h.foldl_eq' (fun e he e' he' s => ?_) s
  cases hoperator : isOperatorKey e.1 with
  | false => rw [addEntry_of_not_operator hoperator, addEntry_of_not_operator hoperator]
  | true =>
    cases hoperator' : isOperatorKey e'.1 with
    | false => rw [addEntry_of_not_operator hoperator', addEntry_of_not_operator hoperator']
    | true => rw [hone e he e' he' hoperator hoperator']

/-- **What a condition says**, whatever the order of its fields. -/
theorem Comparing.spelling (h : Comparing operator d others fields) :
    (entriesOf fields).foldl Spelling.addEntry (.explicit (entriesOf fields)) =
      ⟨.text operator, some d⟩ := by
  obtain ⟨comparing, hspells, hperm⟩ := h.perm
  have hothers : ∀ e ∈ others, isOperatorKey e.1 = false :=
    fun e he => isOperatorKey_of_not_isComparing (h.not_isComparing e he)
  have hcomparing : ∀ e ∈ fields, isOperatorKey e.1 = true → e ∈ comparing := by
    intro e he hoperator
    refine (List.mem_append.1 (hperm.mem_iff.1 he)).resolve_right fun hother => ?_
    exact Bool.noConfusion ((hothers e hother).symm.trans hoperator)
  rw [Spelling.explicit, field, field?_entriesOf, field?_entriesOf, lookup_perm hperm h.nodup,
    lookup_perm hperm h.nodup, List.lookup_append, List.lookup_append,
    lookup_others h.not_isComparing (by decide), lookup_others h.not_isComparing (by decide)]
  cases hspells with
  | key hoperator =>
    have hne : ∀ key, isOperatorKey key = false → (key == operator) = false := by
      intro key hkey
      rw [beq_eq_false_iff_ne]
      rintro rfl
      exact Bool.noConfusion (hkey.symm.trans hoperator)
    -- Of the entries only one has an operator as its key, so it may as well come first.
    rw [foldl_addEntry_perm hperm]
    · rw [entriesOf, List.singleton_append, List.map_cons, List.foldl_cons,
        List.lookup_cons, hne "op" (by decide), List.lookup_cons, hne "value" (by decide)]
      simp only [List.lookup_nil, Option.none_or, Option.getD_none, Spelling.addEntry, hoperator,
        if_true]
      exact foldl_addEntry_of_not_operator hothers _
    · intro e he e' he' hoperator hoperator'
      rw [List.mem_singleton.1 (hcomparing e he hoperator),
        List.mem_singleton.1 (hcomparing e' he' hoperator')]
  | fields =>
    rw [foldl_addEntry_of_not_operator]
    · rfl
    · intro e he
      rw [Bool.eq_false_iff]
      intro hoperator
      have hmem := hcomparing e he hoperator
      rw [List.mem_cons, List.mem_singleton] at hmem
      rcases hmem with rfl | rfl <;> cases hoperator

/-- What a condition says about its variable. -/
theorem Comparing.field_var (h : Comparing operator d others fields) :
    field (entriesOf fields) "var" = (others.lookup "var").getD .null := by
  obtain ⟨comparing, hspells, hperm⟩ := h.perm
  rw [field, field?_entriesOf, lookup_perm hperm h.nodup, List.lookup_append]
  cases hspells with
  | key hoperator =>
    have hne : ("var" == operator) = false := by
      rw [beq_eq_false_iff_ne]
      rintro rfl
      cases hoperator
    rw [List.lookup_cons, hne]
    rfl
  | fields => rfl

theorem readGroup_map (room : Room) (es : List (Datum × Datum)) :
    readGroup room (.map es) = do
      let all ← readItems room es "all"
      let any ← readItems room es "any"
      return ⟨all, any⟩ := by
  rw [readGroup]
  cases readItems room es "all" with
  | error f => rfl
  | ok all => cases readItems room es "any" <;> rfl

end RuleSet

end BusinessRules

import BusinessRules.Datum.Canonical
import BusinessRules.Text.Search

/-!
# Facts and contexts

Rules are evaluated in a context.  Usually that is a set of facts, named data in the order of their
first binding.  A context may also be a bare datum; such a context can be handed around, and rules
that look nothing up can be evaluated in it, but it binds no names.

## Main definitions

* `Facts`, `Facts.get?`, `Facts.set`: named data
* `Context`: what rules are evaluated in
* `Context.lookup`, `Context.bind`: reading and binding a name

## Main statements

* `get?_set_self`, `get?_set_of_ne`: a binding changes its own name and no other
* `exists_of_values`: a name that stands for a value is bound
-/

namespace BusinessRules

/-- Named data, in the order of their first binding. -/
structure Facts where
  bindings : List (String × Datum)
  deriving Repr, BEq, Inhabited

namespace Facts

/-- No facts. -/
def empty : Facts := ⟨[]⟩

/-- The datum bound to a name. -/
def get? (facts : Facts) (name : String) : Option Datum := facts.bindings.lookup name

/-- Bind a name in a list of bindings: in place if it is there, else at the end. -/
def setIn (name : String) (d : Datum) : List (String × Datum) → List (String × Datum)
  | [] => [(name, d)]
  | (n, e) :: rest => if n = name then (n, d) :: rest else (n, e) :: setIn name d rest

/-- Bind a name. -/
def set (facts : Facts) (name : String) (d : Datum) : Facts := ⟨setIn name d facts.bindings⟩

/-- Facts from a list of bindings, later ones replacing earlier ones of the same name. -/
def ofList (bindings : List (String × Datum)) : Facts :=
  bindings.foldl (fun facts (name, d) => facts.set name d) empty

/-- After a binding, the name is bound to the new datum. -/
@[simp] theorem get?_set_self (facts : Facts) (name : String) (d : Datum) :
    (facts.set name d).get? name = some d := by
  obtain ⟨bindings⟩ := facts
  simp only [get?, set]
  induction bindings with
  | nil => simp [setIn]
  | cons b rest ih =>
    obtain ⟨n, e⟩ := b
    by_cases h : n = name
    · simp [setIn, h]
    · have h' : (name == n) = false := by simpa using Ne.symm h
      simp [setIn, h, List.lookup_cons, h', ih]

/-- A binding leaves every other name as it is. -/
theorem get?_set_of_ne (facts : Facts) {name other : String} (d : Datum) (h : other ≠ name) :
    (facts.set name d).get? other = facts.get? other := by
  obtain ⟨bindings⟩ := facts
  simp only [get?, set]
  induction bindings with
  | nil =>
    have h' : (other == name) = false := by simpa using h
    simp [setIn, List.lookup_cons, h']
  | cons b rest ih =>
    obtain ⟨n, e⟩ := b
    by_cases hn : n = name
    · subst hn
      have h' : (other == n) = false := by simpa using h
      simp [setIn, List.lookup_cons, h']
    · simp [setIn, hn, List.lookup_cons, ih]

end Facts

/-- What rules are evaluated in. -/
inductive Context where
  | facts (known : Facts)
  | bare (d : Datum)
  deriving Repr, BEq, Inhabited

namespace Context

/-- Whether a name occurs in a bare datum: as an item of a list, or within a text. -/
def mentions (name : String) : Datum → Outcome Bool
  | .list items | .tuple items => .ok (items.any fun d => d == .text name)
  | .text s => .ok (Text.occursIn name.toList s.toList)
  | d => .error (.namelessContext ("argument of type '" ++ d.typeName ++ "' is not iterable"))

/-- Why a name cannot be read from a bare datum in which it occurs. -/
def unreadable : Datum → Fault
  | .text _ => .namelessContext "string indices must be integers, not 'str'"
  | d => .namelessContext (d.typeName ++ " indices must be integers or slices, not str")

/-- Why a name cannot be bound in a bare datum. -/
def unbindable : Datum → Fault
  | .list _ => .namelessContext "list indices must be integers or slices, not str"
  | d => .namelessContext ("'" ++ d.typeName ++ "' object does not support item assignment")

/-- The datum bound to a name. -/
def lookup : Context → String → Outcome (Option Datum)
  | .facts known, name => .ok (known.get? name)
  | .bare d, name =>
    match mentions name d with
    | .ok true => .error (unreadable d)
    | .ok false => .ok none
    | .error f => .error f

/-- The context after binding a name. -/
def bind : Context → String → Datum → Outcome Context
  | .facts known, name, d => .ok (.facts (known.set name d))
  | .bare e, _, _ => .error (unbindable e)

/-- What names stand for in a context. -/
def values (context : Context) (name : String) : Outcome (Option Value) :=
  match context.lookup name with
  | .ok none => .ok none
  | .ok (some d) => d.toValue.map some
  | .error f => .error f

theorem values_of_lookup {context : Context} {name : String} {d : Datum}
    (h : context.lookup name = .ok (some d)) : context.values name = d.toValue.map some := by
  rw [values, h]

/-- A name that stands for a value is bound to a datum that is seen as this value. -/
theorem exists_of_values {context : Context} {name : String} {v : Value}
    (h : context.values name = .ok (some v)) :
    ∃ d, context.lookup name = .ok (some d) ∧ d.toValue = .ok v := by
  rw [values] at h
  split at h
  · cases h
  · next d hd =>
    cases hvalue : d.toValue with
    | error f =>
      rw [hvalue] at h
      cases h
    | ok w =>
      rw [hvalue] at h
      cases h
      exact ⟨d, hd, hvalue⟩
  · cases h

end Context

end BusinessRules

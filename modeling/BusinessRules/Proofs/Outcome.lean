import Mathlib.Data.List.Forall2
import BusinessRules.Fault

/-!
# Steps that may fail

Facts about results and about steps that are taken one after the other, free of what the steps do.

## Main statements

* `exists_mem_of_mapM_error`, `exists_mem_of_forM_error`: steps in a row fail for the fault of one
  of them
* `forall₂_of_mapM_ok`: steps in a row succeed item by item
* `toOption_map`, `toOption_bind`, `toOption_mapM`: results with their faults left out
-/

namespace BusinessRules

/-! ## One step -/

section One

variable {ε ε' α β : Type} {o : Except ε α}

theorem error_of_map {g : α → β} {e : ε} (h : o.map g = .error e) : o = .error e := by
  cases o with
  | error e' =>
    cases h
    rfl
  | ok a => cases h

theorem error_of_bind {step : α → Except ε β} {e : ε} (h : (o >>= step) = .error e) :
    o = .error e ∨ ∃ a, o = .ok a ∧ step a = .error e := by
  cases o with
  | error e' =>
    cases h
    exact .inl rfl
  | ok a => exact .inr ⟨a, rfl, h⟩

theorem error_of_mapError {g : ε → ε'} {e' : ε'} (h : o.mapError g = .error e') :
    ∃ e, o = .error e ∧ g e = e' := by
  cases o with
  | error e =>
    cases h
    exact ⟨e, rfl, rfl⟩
  | ok a => cases h

end One

/-! ## Steps in a row -/

section Row

variable {ι α : Type} {xs : List ι} {f : Fault}

theorem exists_mem_of_mapM_error {step : ι → Outcome α} (h : xs.mapM step = .error f) :
    ∃ x ∈ xs, step x = .error f := by
  induction xs with
  | nil => cases h
  | cons x xs ih =>
    rw [List.mapM_cons] at h
    cases hx : step x with
    | error g =>
      rw [hx] at h
      cases h
      exact ⟨x, List.mem_cons_self, hx⟩
    | ok a =>
      rw [hx] at h
      cases hxs : xs.mapM step with
      | error g =>
        rw [hxs] at h
        cases h
        obtain ⟨y, hy, hstep⟩ := ih hxs
        exact ⟨y, List.mem_cons_of_mem x hy, hstep⟩
      | ok as =>
        rw [hxs] at h
        cases h

theorem forall₂_of_mapM_ok {step : ι → Outcome α} {as : List α} (h : xs.mapM step = .ok as) :
    List.Forall₂ (fun x a => step x = .ok a) xs as := by
  induction xs generalizing as with
  | nil =>
    cases h
    exact .nil
  | cons x xs ih =>
    rw [List.mapM_cons] at h
    cases hx : step x with
    | error g =>
      rw [hx] at h
      cases h
    | ok a =>
      rw [hx] at h
      cases hxs : xs.mapM step with
      | error g =>
        rw [hxs] at h
        cases h
      | ok as =>
        rw [hxs] at h
        cases h
        exact .cons hx (ih hxs)

theorem exists_mem_of_forM_error {step : ι → Outcome Unit} (h : xs.forM step = .error f) :
    ∃ x ∈ xs, step x = .error f := by
  rw [List.forM_eq_forM] at h
  induction xs with
  | nil => cases h
  | cons x xs ih =>
    rw [List.forM_cons] at h
    cases hx : step x with
    | error g =>
      rw [hx] at h
      cases h
      exact ⟨x, List.mem_cons_self, hx⟩
    | ok a =>
      rw [hx] at h
      obtain ⟨y, hy, hstep⟩ := ih h
      exact ⟨y, List.mem_cons_of_mem x hy, hstep⟩

end Row

/-! ## Results without their faults -/

section WithoutFaults

variable {ι κ α β : Type} {o : Outcome α} {a : α}

theorem eq_ok_of_toOption (h : o.toOption = some a) : o = .ok a := by
  cases o with
  | error f => cases h
  | ok b => exact congrArg Except.ok (Option.some.inj h)

theorem exists_error_of_toOption (h : o.toOption = none) : ∃ f, o = .error f := by
  cases o with
  | error f => exact ⟨f, rfl⟩
  | ok a => cases h

theorem toOption_bind (o : Outcome α) (f : α → Outcome β) :
    (o >>= f).toOption = o.toOption.bind fun a => (f a).toOption := by
  cases o <;> rfl

theorem toOption_map (o : Outcome α) (f : α → β) : (o.map f).toOption = o.toOption.map f := by
  cases o <;> rfl

theorem toOption_mapM (f : ι → Outcome α) (xs : List ι) :
    (xs.mapM f).toOption = xs.mapM fun x => (f x).toOption := by
  induction xs with
  | nil => rfl
  | cons x xs ih =>
    simp only [List.mapM_cons, toOption_bind, ih]
    rfl

theorem mapM_congr_of_forall₂ {f : ι → Option α} {g : κ → Option α} {xs : List ι} {ys : List κ}
    (h : List.Forall₂ (fun x y => f x = g y) xs ys) : xs.mapM f = ys.mapM g := by
  induction h with
  | nil => rfl
  | cons hxy _ ih => rw [List.mapM_cons, List.mapM_cons, hxy, ih]

end WithoutFaults

end BusinessRules

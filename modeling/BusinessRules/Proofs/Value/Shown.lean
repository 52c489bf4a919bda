import BusinessRules.Facts
import BusinessRules.Proofs.Outcome

/-!
# What cannot be shown

There are two reasons why a datum cannot be shown: a whole number in it has too many digits, or it
is nested deeper than there is room.  Values are read from data in unbounded room, so for them only
the first reason is left.

## Main definitions

* `Datum.Unshowable`: the two faults

## Main statements

* `Datum.unshowable_shown`, `Datum.unshowable_shownItems`, `Datum.unshowable_shownEntries`: the
  faults of data, of their items and of their entries, by induction on the datum
* `Datum.toValue_error`: the one fault of data that have no value
* `Context.values_error`: the one fault of names in facts
-/

namespace BusinessRules

variable {f : Fault}

/-- A fault that shows something is of the class of its cause, or is the reason why this cannot be
shown. -/
theorem kind_showing (cause : String → Fault) {kind : FaultKind} (h : ∀ s, (cause s).kind = kind)
    (o : Outcome String) :
    (Fault.showing cause o).kind = kind ∨ o = .error (.showing cause o) := by
  cases o with
  | ok s => exact .inl (h s)
  | error g => exact .inr rfl

namespace Datum

/-! ## Showing -/

/-- The faults of showing a datum in some room. -/
inductive Unshowable (room : Room) : Fault → Prop
  | number : Unshowable room .numberUnshowable
  | depth (h : room ≠ .unbounded) :
    Unshowable room (.nestedTooDeep "getting the repr of an object")

theorem Unshowable.kind_eq {room : Room} (h : Unshowable room f) :
    f.kind = .value ∨ f.kind = .recursion := by
  cases h with
  | number => exact .inl rfl
  | depth => exact .inr rfl

/-- What goes wrong one level further in goes wrong here. -/
theorem Unshowable.of_inside {room inner : Room} (hinside : room.inside? = some inner)
    (h : Unshowable inner f) : Unshowable room f := by
  cases h with
  | number => exact .number
  | depth hinner =>
    refine .depth ?_
    rintro rfl
    exact hinner (Option.some.inj hinside).symm

theorem Unshowable.showWhole {room : Room} {n : Int} (h : showWhole n = .error f) :
    Unshowable room f := by
  rw [Datum.showWhole] at h
  split at h
  · cases h
  · cases h
    exact .number

mutual

theorem unshowable_shown (room : Room) (d : Datum) (h : d.shown room = .error f) :
    Unshowable room f := by
  rw [shown] at h
  split at h
  · next hinside =>
    cases h
    refine .depth ?_
    rintro rfl
    cases hinside
  · next inner hinside =>
    cases d with
    | int n => exact .showWhole h
    | range stop => exact .showWhole (error_of_map h)
    | list items => exact .of_inside hinside (unshowable_shownItems inner items (error_of_map h))
    | tuple items =>
      match items with
      | [] => cases h
      | [item] => exact .of_inside hinside (unshowable_shown inner item (error_of_map h))
      | d :: e :: items =>
        exact .of_inside hinside (unshowable_shownItems inner (d :: e :: items) (error_of_map h))
    | set items =>
      match items with
      | [] => cases h
      | d :: items =>
        exact .of_inside hinside (unshowable_shownItems inner (d :: items) (error_of_map h))
    | map entries =>
      exact .of_inside hinside (unshowable_shownEntries inner entries (error_of_map h))
    | _ => cases h

theorem unshowable_shownItems (room : Room) (ds : List Datum) (h : shownItems room ds = .error f) :
    Unshowable room f := by
  cases ds with
  | nil => cases h
  | cons d ds =>
    rw [shownItems] at h
    rcases error_of_bind h with hd | ⟨t, -, h⟩
    · exact unshowable_shown room d hd
    · rcases error_of_bind h with hds | ⟨ts, -, h⟩
      · exact unshowable_shownItems room ds hds
      · cases h

theorem unshowable_shownEntries (room : Room) (es : List (Datum × Datum))
    (h : shownEntries room es = .error f) : Unshowable room f := by
  match es with
  | [] => cases h
  | (k, v) :: es =>
    rw [shownEntries] at h
    rcases error_of_bind h with hk | ⟨key, -, h⟩
    · exact unshowable_shown room k hk
    · rcases error_of_bind h with hv | ⟨value, -, h⟩
      · exact unshowable_shown room v hv
      · rcases error_of_bind h with hes | ⟨ts, -, h⟩
        · exact unshowable_shownEntries room es hes
        · cases h

end

theorem unshowable_display {room : Room} {d : Datum} (h : d.display room = .error f) :
    Unshowable room f := by
  cases d with
  | text s => cases h
  | decimal n => cases h
  | other o => cases h
  | _ => exact unshowable_shown room _ h

/-! ## Values -/

theorem eq_of_unshowable_unbounded (h : Unshowable .unbounded f) : f = .numberUnshowable := by
  cases h with
  | number => rfl
  | depth h => exact absurd rfl h

mutual

/-- A datum that has no value is one that cannot be shown. -/
theorem toValue_error (d : Datum) (h : d.toValue = .error f) : f = .numberUnshowable := by
  cases d with
  | null | bool | int | decimal | float | text => cases h
  | list items | tuple items | set items => exact toValues_error items (error_of_map h)
  | _ =>
    rw [toValue.eq_def] at h
    exact eq_of_unshowable_unbounded (unshowable_display (error_of_map h))

theorem toValues_error (ds : List Datum) (h : toValues ds = .error f) : f = .numberUnshowable := by
  cases ds with
  | nil => cases h
  | cons d ds =>
    rw [toValues] at h
    rcases error_of_bind h with hd | ⟨v, -, h⟩
    · exact toValue_error d hd
    · rcases error_of_bind h with hds | ⟨vs, -, h⟩
      · exact toValues_error ds hds
      · cases h

end

end Datum

/-- A name in facts that stands for no value, though it is bound, is bound to a datum that cannot be
shown. -/
theorem Context.values_error {known : Facts} {name : String}
    (h : (Context.facts known).values name = .error f) : f = .numberUnshowable := by
  rw [values, lookup] at h
  cases hname : known.get? name with
  | none =>
    rw [hname] at h
    cases h
  | some d =>
    rw [hname] at h
    exact Datum.toValue_error d (error_of_map h)

end BusinessRules

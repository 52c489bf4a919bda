import BusinessRules.Proofs.Expression.Exact

/-!
# Numbers that evaluations reach

The operations of an evaluation give numbers that fit the precision, and the literals of a text are
numbers that can be written.  So whatever all numbers have that can be written, every value has as
well if the names have it: values are finite where the names are, and can be written and read back
where those of the names can.

## Main definitions

* `IsRange`: a property of finite numbers that all numbers have that can be written

## Main statements

* `IsRange.evaluateArithmetic`: values have the property if names have it
-/

namespace BusinessRules

/-! ## Numbers that can be written -/

theorem Numeral.inRange_of_toDecimal? {n : Numeral} {d : Decimal} (h : n.toDecimal? = some d) :
    d.InRange := by
  rw [Numeral.toDecimal?] at h
  split at h
  · next hrange =>
    cases h
    rw [Bool.and_eq_true, decide_eq_true_eq, decide_eq_true_eq] at hrange
    exact ⟨_, _, _, rfl, hrange⟩
  · cases h

theorem Decimal.inRange_zero : Decimal.zero.InRange := by
  refine ⟨false, 0, 0, rfl, by decide, ?_⟩
  rw [adjusted, digitCount_zero]
  decide

theorem Value.inRange_numberOfText (s : String) : (Value.numberOfText s).InRange := by
  rw [Value.numberOfText]
  cases h : (Numeral.read? (Text.trim s.toList)).bind Numeral.toDecimal? with
  | none => exact Decimal.inRange_zero
  | some d =>
    obtain ⟨n, -, hn⟩ := Option.bind_eq_some_iff.1 h
    exact Numeral.inRange_of_toDecimal? hn

namespace Expression

/-- A property of finite numbers that all numbers have that can be written. -/
structure IsRange (P : Decimal → Prop) : Prop where
  isFinite : ∀ x, P x → x.IsFinite
  of_inRange : ∀ x, x.InRange → P x

/-- Names whose numbers have a property. -/
def NamesIn (P : Decimal → Prop) (names : Names) : Prop :=
  ∀ name x, names name = .ok (some (.number x)) → P x

theorem isRange_isFinite : IsRange Decimal.IsFinite :=
  ⟨fun _ => id, fun _ => Decimal.InRange.isFinite⟩

theorem isRange_inRange : IsRange Decimal.InRange :=
  ⟨fun _ => Decimal.InRange.isFinite, fun _ => id⟩

namespace IsRange

variable {P : Decimal → Prop} {p : Precision} {names : Names}

/-- The number of a value that is no number itself can be written. -/
theorem toNumber (hP : IsRange P) {v : Value} (h : ∀ x, v = .number x → P x) : P v.toNumber := by
  cases v with
  | number x => exact h x rfl
  | text s => exact hP.of_inRange _ (Value.inRange_numberOfText s)
  | _ => exact hP.of_inRange _ Decimal.inRange_zero

/-- Results of operations that fit can be written. -/
theorem ofArithmetic (hP : IsRange P) {r : Except ArithmeticFault Decimal} {v : Value}
    (h : ofArithmetic r = .ok v) (hr : ∀ x, r = .ok x → x.Fits p) : ∀ x, v = .number x → P x := by
  rcases r with f | x
  · cases h
  · cases h
    rintro y hy
    exact hP.of_inRange y (hr y (by rw [Value.number.inj hy])).inRange

theorem operate (hP : IsRange P) {op : Char} {v w u : Value} (h : operate p op v w = .ok u)
    (hv : ∀ x, v = .number x → P x) (hw : ∀ x, w = .number x → P x) :
    ∀ x, u = .number x → P x := by
  have hx := hP.isFinite _ (hP.toNumber hv)
  have hy := hP.isFinite _ (hP.toNumber hw)
  rw [Expression.operate] at h
  split at h
  · exact hP.ofArithmetic h fun z => Decimal.add_fits hx hy
  · split at h
    · exact hP.ofArithmetic h fun z => Decimal.sub_fits hx hy
    · split at h
      · exact hP.ofArithmetic h fun z => Decimal.mul_fits hx hy
      · split at h
        · cases h
        · cases h
        · exact hP.ofArithmetic h fun z => Decimal.div_fits hx hy

theorem applySign (hP : IsRange P) {sign : Char} {v w : Value} (h : applySign p sign v = .ok w)
    (hv : ∀ x, v = .number x → P x) : ∀ x, w = .number x → P x := by
  have hx := hP.toNumber hv
  rw [Expression.applySign] at h
  split at h
  · exact hP.ofArithmetic h fun z => Decimal.neg_fits (hP.isFinite _ hx)
  · cases h
    rintro y hy
    rwa [← Value.number.inj hy]

theorem read? (hP : IsRange P) {cs : List Char} {v : Value} (h : Literal.read? cs = .ok (some v)) :
    ∀ x, v = .number x → P x := by
  rintro x rfl
  rw [Literal.read?] at h
  split at h
  · next n hn =>
    split at h
    · next d hd =>
      cases h
      exact hP.of_inRange _ (Numeral.inRange_of_toDecimal? hd)
    · cases h
  · split at h
    · cases h
    · have hword := Except.ok.inj h
      rw [Literal.word?] at hword
      split at hword
      · cases hword
      · split at hword
        · cases hword
        · split at hword <;> cases hword

theorem evaluateFlat (hP : IsRange P) (hnames : NamesIn P names) {cs : List Char} {v : Value}
    (h : evaluateFlat p names cs = .ok v) : ∀ x, v = .number x → P x := by
  fun_induction Expression.evaluateFlat p names cs generalizing v with
  | case1 cs hparen => cases h
  | case2 cs hparen op i hop f hleft ih => cases h
  | case3 cs hparen op i hop left hleft f hright ihleft ihright => cases h
  | case4 cs hparen op i hop left hleft right hright ihleft ihright =>
    exact hP.operate h (ihleft hleft) (ihright hright)
  | case5 cs hparen hop hempty => cases h
  | case6 cs hparen hop hempty f hread => cases h
  | case7 cs hparen hop hempty w hread =>
    cases h
    exact hP.read? hread
  | case8 cs hparen hop hempty hread sign rest hsign f hrest ih => cases h
  | case9 cs hparen hop hempty hread sign rest hsign w hrest ih =>
    exact hP.applySign h (ih hrest)
  | case10 cs hparen hop hempty hread hsign =>
    rintro x rfl
    rw [resolve] at h
    split at h
    · cases h
    · next w hw =>
      cases h
      exact hnames _ x hw
    · split at h <;> cases h

/-- **Values have the property if names have it.** -/
theorem evaluateArithmetic (hP : IsRange P) (hnames : NamesIn P names) {cs : List Char} {v : Value}
    (h : evaluateArithmetic p names cs = .ok v) : ∀ x, v = .number x → P x := by
  rw [Expression.evaluateArithmetic] at h
  generalize Text.trim cs = trimmed at h
  fun_induction evaluateGroups p names trimmed generalizing v with
  | case1 cs hgroup hlast => cases h
  | case2 cs hgroup before inside after hlast f hinside => cases h
  | case3 cs hgroup before inside after hlast w hinside f hliteral => cases h
  | case4 cs hgroup before inside after hlast w hinside literal hliteral ih => exact ih h
  | case5 cs hgroup => exact hP.evaluateFlat hnames h

end IsRange

end Expression

end BusinessRules

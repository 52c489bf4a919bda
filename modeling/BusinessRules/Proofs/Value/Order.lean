import BusinessRules.Proofs.Expression.Range
import BusinessRules.Proofs.Value.Shown

/-!
# Which of two values comes first

Values of any two kinds can be compared, each pair of kinds in its own way, and nothing ties these
ways together: `"10"` is below `"9"`, and `"9"` is equal to the number `9`, which is below `"10"`.
What all of them share is that a comparison can be read from either side.  Whatever it gives, its
converse gives the opposite, also where it fails, which it does only if it comes to an undefined
number.

A decimal has a place on the line of the rationals with an infinity at each end, and comparison of
decimals is comparison of places (`compare_eq_cmp`).  The rest follows the two functions that
compare values and collections of values.

## Main definitions

* `Decimal.isDefined`, `Value.isDefined`, `Datum.isDefined`: no undefined numbers
* `Decimal.place`: where a decimal lies
* `Datum.Verdict`: what the six comparison operators say of two data

## Main statements

* `Value.compare_swap`: a comparison and its converse
* `Value.exists_compare`: values without undefined numbers can be compared
* `Datum.compare_oriented`: both for data, and the six operators
-/

namespace BusinessRules

/-- A least element below a linear order changes nothing among the others. -/
theorem cmp_coe {K : Type} [LinearOrder K] (a b : K) : cmp (a : WithBot K) b = cmp a b :=
  WithBot.coe_strictMono.cmp_map_eq a b

/-! ## Decimals -/

namespace Decimal

/-- A decimal that is not undefined. -/
def isDefined : Decimal → Bool
  | .undefined .. => false
  | _ => true

/-- Where a decimal lies on the line of the rationals with an infinity at each end. -/
def place : Decimal → WithBot (WithTop ℚ)
  | .infinite negative => if negative then ⊥ else ((⊤ : WithTop ℚ) : WithBot (WithTop ℚ))
  | x => ((x.toRat : WithTop ℚ) : WithBot (WithTop ℚ))

variable {x y : Decimal}

theorem IsFinite.isDefined (h : x.IsFinite) : x.isDefined = true := by
  obtain ⟨n, c, e, rfl⟩ := h
  rfl

/-- **Comparison of decimals is comparison of their places.** -/
theorem compare_eq_cmp (hx : x.isDefined = true) (hy : y.isDefined = true) :
    x.compare y = .ok (cmp x.place y.place) := by
  cases x with
  | undefined n s d => cases hx
  | infinite n =>
    cases y with
    | undefined m s d => cases hy
    | infinite m => cases n <;> cases m <;> rfl
    | finite m c e =>
      cases n with
      | false => rfl
      | true => rfl
  | finite n c e =>
    cases y with
    | undefined m s d => cases hy
    | infinite m =>
      cases m with
      | false => rfl
      | true => rfl
    | finite m d k =>
      have hplaces : cmp (finite n c e).place (finite m d k).place =
          cmp (finite n c e).toRat (finite m d k).toRat :=
        (cmp_coe _ _).trans (WithTop.coe_strictMono.cmp_map_eq _ _)
      rw [compare, compare_finite, hplaces]

theorem compare_swap (x y : Decimal) : y.compare x = (x.compare y).map Ordering.swap := by
  by_cases hx : x.isDefined = true
  · by_cases hy : y.isDefined = true
    · rw [compare_eq_cmp hx hy, compare_eq_cmp hy hx, Except.map, cmp_swap]
    · cases y with
      | undefined n s d => cases x <;> rfl
      | _ => exact absurd rfl hy
  · cases x with
    | undefined n s d => cases y <;> rfl
    | _ => exact absurd rfl hx

end Decimal

/-! ## Values -/

namespace Value

mutual

/-- A value that holds no undefined number, at any depth. -/
def isDefined : Value → Bool
  | .number n => n.isDefined
  | .list items => areDefined items
  | _ => true

/-- Values that hold no undefined number. -/
def areDefined : List Value → Bool
  | [] => true
  | v :: vs => v.isDefined && areDefined vs

end

theorem areDefined_iff {items : List Value} :
    areDefined items = true ↔ ∀ v ∈ items, v.isDefined = true := by
  induction items with
  | nil => simp [areDefined]
  | cons v vs ih => simp [areDefined, ih]

/-- Whatever a value is, it counts as a number that is defined, unless it is one that is not. -/
theorem isDefined_toNumber {v : Value} (h : v.isDefined = true) : v.toNumber.isDefined = true := by
  cases v with
  | number n => exact h
  | text s => exact (inRange_numberOfText s).isFinite.isDefined
  | _ => rfl

theorem compareNumbers_swap (x y : Decimal) :
    compareNumbers y x = (compareNumbers x y).map Ordering.swap := by
  rw [compareNumbers, compareNumbers, Decimal.compare_swap x y]
  cases x.compare y <;> rfl

theorem exists_compareNumbers {x y : Decimal} (hx : x.isDefined = true) (hy : y.isDefined = true) :
    ∃ o, compareNumbers x y = .ok o :=
  ⟨_, by rw [compareNumbers, Decimal.compare_eq_cmp hx hy]⟩

mutual

/-- **A comparison and its converse** fail with the same fault, or give opposite orders. -/
theorem compare_swap : (v w : Value) → w.compare v = (v.compare w).map Ordering.swap
  | .null, w => by cases w <;> rfl
  | .bool a, w => by
    cases w with
    | null => rfl
    | bool b => exact congrArg Except.ok Std.OrientedOrd.eq_swap
    | list ys => exact compareNumbers_swap .zero .zero
    | _ => exact compareNumbers_swap ..
  | .number n, w => by
    cases w with
    | null => rfl
    | _ => exact compareNumbers_swap ..
  | .text s, w => by
    cases w with
    | null => rfl
    | text t => exact congrArg Except.ok Std.OrientedOrd.eq_swap
    | _ => exact compareNumbers_swap ..
  | .list xs, w => by
    cases w with
    | null => rfl
    | list ys => exact compareLists_swap xs ys
    | bool b => exact compareNumbers_swap .zero .zero
    | _ => exact compareNumbers_swap ..

theorem compareLists_swap : (xs ys : List Value) →
    compareLists ys xs = (compareLists xs ys).map Ordering.swap
  | [], ys => by cases ys <;> rfl
  | x :: xs, ys => by
    cases ys with
    | nil => rfl
    | cons y ys =>
      rw [compareLists, compareLists, compare_swap x y]
      -- Later elements count only where the first ones are equal, from either side.
      rcases x.compare y with f | _ | _ | _
      · rfl
      · rfl
      · exact compareLists_swap xs ys
      · rfl

end

mutual

/-- **Values without undefined numbers can be compared.** -/
theorem exists_compare : (v w : Value) → v.isDefined = true → w.isDefined = true →
    ∃ o, v.compare w = .ok o
  | .null, w, _, _ => by cases w <;> exact ⟨_, rfl⟩
  | .bool a, w, hv, hw => by
    cases w with
    | null => exact ⟨_, rfl⟩
    | bool b => exact ⟨_, rfl⟩
    | _ => exact exists_compareNumbers (isDefined_toNumber hv) (isDefined_toNumber hw)
  | .number n, w, hv, hw => by
    cases w with
    | null => exact ⟨_, rfl⟩
    | _ => exact exists_compareNumbers (isDefined_toNumber hv) (isDefined_toNumber hw)
  | .text s, w, hv, hw => by
    cases w with
    | null => exact ⟨_, rfl⟩
    | text t => exact ⟨_, rfl⟩
    | _ => exact exists_compareNumbers (isDefined_toNumber hv) (isDefined_toNumber hw)
  | .list xs, w, hv, hw => by
    cases w with
    | null => exact ⟨_, rfl⟩
    | list ys => exact exists_compareLists xs ys hv hw
    | _ => exact exists_compareNumbers (isDefined_toNumber hv) (isDefined_toNumber hw)

theorem exists_compareLists : (xs ys : List Value) → areDefined xs = true → areDefined ys = true →
    ∃ o, compareLists xs ys = .ok o
  | [], ys, _, _ => by cases ys <;> exact ⟨_, rfl⟩
  | x :: xs, ys, hxs, hys => by
    cases ys with
    | nil => exact ⟨_, rfl⟩
    | cons y ys =>
      rw [areDefined, Bool.and_eq_true] at hxs hys
      obtain ⟨o, ho⟩ := exists_compare x y hxs.1 hys.1
      rw [compareLists, ho]
      cases o with
      | lt => exact ⟨_, rfl⟩
      | gt => exact ⟨_, rfl⟩
      | eq => exact exists_compareLists xs ys hxs.2 hys.2

end

/-- A value without undefined numbers is equal to itself, as the opposite order is. -/
theorem compare_self {v : Value} (h : v.isDefined = true) : v.compare v = .ok .eq := by
  obtain ⟨o, ho⟩ := exists_compare v v h h
  have hswap := compare_swap v v
  rw [ho] at hswap ⊢
  cases o with
  | eq => rfl
  | lt => cases hswap
  | gt => cases hswap

end Value

/-! ## Data -/

namespace Datum

/-- A datum that has a value in which there is no undefined number, at any depth. -/
def isDefined (d : Datum) : Bool :=
  match d.toValue with
  | .ok v => v.isDefined
  | .error _ => false

theorem exists_value_of_isDefined {d : Datum} (h : d.isDefined = true) :
    ∃ v, d.toValue = .ok v ∧ v.isDefined = true := by
  rw [isDefined] at h
  cases hd : d.toValue with
  | error f =>
    rw [hd] at h
    cases h
  | ok v =>
    rw [hd] at h
    exact ⟨v, rfl, h⟩

/-- A comparison and its converse. -/
theorem compare_swap (a b : Datum) : b.compare a = (a.compare b).map Ordering.swap := by
  rw [compare, compare]
  cases ha : a.toValue with
  | error f =>
    cases hb : b.toValue with
    | error g =>
      rw [toValue_error a ha, toValue_error b hb]
      rfl
    | ok w => rfl
  | ok v =>
    cases hb : b.toValue with
    | error g => rfl
    | ok w => exact Value.compare_swap v w

/-- What the comparison operators say of two data that have an order: just one of `<`, `==` and `>`
holds, and each of the other three says the opposite of one of them. -/
structure Verdict (a b : Datum) (below same above : Bool) : Prop where
  lt : a.compareWith .lt b = .ok below
  eq : a.compareWith .eq b = .ok same
  gt : a.compareWith .gt b = .ok above
  one : [below, same, above].count true = 1
  ge : a.compareWith .ge b = .ok (!below)
  ne : a.compareWith .ne b = .ok (!same)
  le : a.compareWith .le b = .ok (!above)

theorem compareWith_eq_map (op : Comparison) (a b : Datum) :
    a.compareWith op b = (a.compare b).map op.holds := by
  rw [compareWith, compare]
  cases a.toValue with
  | error f => rfl
  | ok v => cases b.toValue <;> rfl

theorem verdict_of_compare {a b : Datum} {o : Ordering} (h : a.compare b = .ok o) :
    Verdict a b o.isLT o.isEq o.isGT := by
  have hop : ∀ op, a.compareWith op b = .ok (op.holds o) := by
    intro op
    rw [compareWith_eq_map, h, Except.map]
  refine ⟨hop .lt, hop .eq, hop .gt, ?_, (hop .ge).trans ?_, (hop .ne).trans ?_,
    (hop .le).trans ?_⟩ <;> cases o <;> rfl

/-- **Comparison is antisymmetric, and total without undefined numbers.**  A comparison of any two
data and its converse fail with the same fault, or give opposite orders.  If both data have values,
and these hold no undefined number, it does not fail, each of them is equal to itself, just one of
`<`, `==` and `>` holds, and `>=`, `<=` and `!=` are the negations of `<`, `>` and `==`. -/
theorem compare_oriented (a b : Datum) :
    b.compare a = (a.compare b).map Ordering.swap ∧
      (a.isDefined = true → b.isDefined = true →
        (∃ o, a.compare b = .ok o) ∧ a.compare a = .ok .eq ∧
          ∃ below same above, Verdict a b below same above) := by
  refine ⟨compare_swap a b, fun ha hb => ?_⟩
  obtain ⟨v, hv, hvdefined⟩ := exists_value_of_isDefined ha
  obtain ⟨w, hw, hwdefined⟩ := exists_value_of_isDefined hb
  obtain ⟨o, ho⟩ := Value.exists_compare v w hvdefined hwdefined
  rw [← compare_of_values hv hw] at ho
  exact ⟨⟨o, ho⟩, (compare_of_values hv hv).trans (Value.compare_self hvdefined), _, _, _,
    verdict_of_compare ho⟩

/-- A tuple of a text that spells five in foreign digits, a collection, and a binary number. -/
def sampleTuple : Datum :=
  .tuple [.text "\u2003+\u0665.0\n", .list [.null, .bool true],
    .float (.ofDecimal (.finite false 5 (-1)))]

/-- A list of a whole number, a collection with a text that spells no number, and an infinite
number. -/
def sampleList : Datum :=
  .list [.int 5, .tuple [.null, .text "x"], .decimal (.infinite false)]

/-- Elements of different kinds are compared through their numbers, up to the first that differ. -/
theorem compare_orientedSample :
    sampleTuple.isDefined = true ∧ sampleList.isDefined = true ∧
      sampleTuple.compare sampleList = .ok .lt ∧ sampleList.compare sampleTuple = .ok .gt ∧
      sampleTuple.compare sampleTuple = .ok .eq ∧
      ∃ below same above, Verdict sampleTuple sampleList below same above := by
  have htuple : sampleTuple.isDefined = true := by decide +kernel
  have hlist : sampleList.isDefined = true := by decide +kernel
  have hcompare : sampleTuple.compare sampleList = .ok .lt := by decide +kernel
  obtain ⟨hconverse, htotal⟩ := compare_oriented sampleTuple sampleList
  obtain ⟨-, hself, hverdict⟩ := htotal htuple hlist
  rw [hcompare] at hconverse
  exact ⟨htuple, hlist, hcompare, hconverse, hself, hverdict⟩

end Datum

end BusinessRules

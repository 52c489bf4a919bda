import BusinessRules.Proofs.Value.Order

/-!
# The order of homogeneous data

Across kinds comparison is no order: it can go round in a circle.  Data of one shape have an order:
numbers, truth values, texts, collections of data of one shape, collections of such collections and
so on, with null at any place.  No comparison of such data leaves the shape, so no two values of
different kinds ever meet.

Two data of one shape need not be the same to be equal, as `1.0` and `1.00` are, so the order is one
of classes.  Every datum gets a key in a linear order, and comparison of data is comparison of keys
(`Shape.keyed`): a number has its place as its key, a text its code points, a collection the list of
the keys of its elements, and null a key below all others.  Everything that holds of a linear order
then holds of the data.

## Main definitions

* `Shape`, `Shape.admits`: the shapes, and the values of a shape
* `Shape.Holds`, `Shape.Filled`: those without undefined numbers, and those that are not null
* `Keyed`: values that are compared as keys in a linear order
* `Datum.IsOf`, `Datum.AtMost`: a datum of a shape, and one that does not come after another one

## Main statements

* `compareLists_eq_keyOrder`: collections are compared as the lists of their keys
* `Shape.keyed`: the values of a shape have keys
* `Datum.compare_preorder`: the data of a shape are ordered, and data at large are not
-/

namespace BusinessRules

/-! ## Shapes -/

/-- What homogeneous data are made of. -/
inductive Shape where
  | number
  | boolean
  | text
  | collection (items : Shape)
  deriving DecidableEq, Repr

namespace Shape

/-- Whether a value is of a shape.  Null is of every shape. -/
def admits : Shape → Value → Bool
  | _, .null => true
  | .number, .number _ => true
  | .boolean, .bool _ => true
  | .text, .text _ => true
  | .collection T, .list items => items.all T.admits
  | _, _ => false

/-- The values of a shape that hold no undefined number. -/
structure Holds (T : Shape) (v : Value) : Prop where
  shape : T.admits v = true
  defined : v.isDefined = true

variable {T : Shape} {v : Value}

instance (T : Shape) (v : Value) : Decidable (T.Holds v) :=
  decidable_of_iff (T.admits v = true ∧ v.isDefined = true)
    ⟨fun h => ⟨h.1, h.2⟩, fun h => ⟨h.shape, h.defined⟩⟩

/-- The values of a shape that are not null. -/
inductive Filled : Shape → Value → Prop
  | number (n : Decimal) : Filled .number (.number n)
  | boolean (b : Bool) : Filled .boolean (.bool b)
  | text (s : String) : Filled .text (.text s)
  | collection (T : Shape) (items : List Value) : Filled (.collection T) (.list items)

theorem filled_of_admits (h : T.admits v = true) (hne : v ≠ .null) : T.Filled v := by
  cases v with
  | null => exact absurd rfl hne
  | number n =>
    cases T with
    | number => exact .number n
    | _ => cases h
  | bool b =>
    cases T with
    | boolean => exact .boolean b
    | _ => cases h
  | text s =>
    cases T with
    | text => exact .text s
    | _ => cases h
  | list items =>
    cases T with
    | collection T => exact .collection T items
    | _ => cases h

theorem Holds.of_mem {items : List Value} (h : (collection T).Holds (.list items)) :
    ∀ v ∈ items, T.Holds v := fun v hv =>
  ⟨List.all_eq_true.1 h.shape v hv, Value.areDefined_iff.1 h.defined v hv⟩

end Shape

/-! ## Keys -/

/-- The order of two keys.  Lists also have a comparison of their own; here it is always the linear
order that decides. -/
def keyOrder {K : Type} [LinearOrder K] (a b : K) : Ordering := cmp a b

/-- Values that are compared as keys in a linear order. -/
def Keyed (P : Value → Prop) : Prop :=
  ∃ (K : Type) (_ : LinearOrder K) (key : Value → K),
    ∀ v w, P v → P w → v.compare w = .ok (keyOrder (key v) (key w))

section Order

variable {K : Type} [LinearOrder K]

theorem keyOrder_self (a : K) : keyOrder a a = .eq := cmp_self_eq_eq a

theorem keyOrder_eq_lt {a b : K} : keyOrder a b = .lt ↔ a < b := cmp_eq_lt_iff a b

theorem keyOrder_eq_gt {a b : K} : keyOrder a b = .gt ↔ b < a := cmp_eq_gt_iff a b

theorem keyOrder_eq_eq {a b : K} : keyOrder a b = .eq ↔ a = b := cmp_eq_eq_iff a b

/-- The order of two lists is that of the first elements that differ. -/
theorem keyOrder_cons (a b : K) (as bs : List K) :
    keyOrder (a :: as) (b :: bs) = (keyOrder a b).then (keyOrder as bs) := by
  refine (Decimal.eq_cmp ?_ ?_).symm
  · rw [Ordering.then_eq_lt, keyOrder_eq_lt, keyOrder_eq_eq, keyOrder_eq_lt,
      List.cons_lt_cons_iff]
  · rw [Ordering.then_eq_eq, keyOrder_eq_eq, keyOrder_eq_eq, List.cons.injEq]

theorem keyOrder_nil_cons (b : K) (bs : List K) : keyOrder [] (b :: bs) = .lt :=
  keyOrder_eq_lt.2 (List.nil_lt_cons b bs)

theorem keyOrder_cons_nil (a : K) (as : List K) : keyOrder (a :: as) [] = .gt :=
  keyOrder_eq_gt.2 (List.nil_lt_cons a as)

end Order

theorem compare_eq_keyOrder (ms ns : List Nat) : Ord.compare ms ns = keyOrder ms ns := by
  induction ms generalizing ns with
  | nil =>
    cases ns with
    | nil => rw [keyOrder_self, List.compare_nil_nil]
    | cons n ns => rw [keyOrder_nil_cons, List.compare_nil_cons]
  | cons m ms ih =>
    cases ns with
    | nil => rw [keyOrder_cons_nil, List.compare_cons_nil]
    | cons n ns =>
      have hhead : Ord.compare m n = keyOrder m n :=
        (Decimal.nat_compare_eq_cmp m n).trans (Nat.strictMono_cast.cmp_map_eq m n)
      rw [List.compare_cons_cons, keyOrder_cons, hhead, ih]

namespace Value

/-- The truth value that a value is, false if it is none. -/
def flag : Value → Bool
  | .bool b => b
  | _ => false

/-- The code points of a text, none if a value is no text. -/
def points : Value → List Nat
  | .text s => Text.codePoints s.toList
  | _ => []

/-- The elements of a collection, none if a value is no collection. -/
def elements : Value → List Value
  | .list items => items
  | _ => []

/-- Keys for all values: those given, and one below them for null. -/
def withNull {K : Type} (key : Value → K) : Value → WithBot K
  | .null => ⊥
  | v => key v

theorem withNull_of_ne {K : Type} (key : Value → K) {v : Value} (h : v ≠ .null) :
    v.withNull key = key v := by
  cases v with
  | null => exact absurd rfl h
  | _ => rfl

/-- **Collections are compared as the lists of the keys of their elements.** -/
theorem compareLists_eq_keyOrder {P : Value → Prop} {K : Type} [LinearOrder K] {key : Value → K}
    (hkey : ∀ v w, P v → P w → v.compare w = .ok (keyOrder (key v) (key w)))
    {xs ys : List Value} (hxs : ∀ v ∈ xs, P v) (hys : ∀ w ∈ ys, P w) :
    compareLists xs ys = .ok (keyOrder (xs.map key) (ys.map key)) := by
  induction xs generalizing ys with
  | nil =>
    cases ys with
    | nil => rw [List.map_nil, keyOrder_self, compareLists]
    | cons y ys => rw [List.map_nil, List.map_cons, keyOrder_nil_cons, compareLists]
  | cons x xs ih =>
    cases ys with
    | nil => rw [List.map_nil, List.map_cons, keyOrder_cons_nil, compareLists]
    | cons y ys =>
      rw [List.forall_mem_cons] at hxs hys
      rw [compareLists, hkey x y hxs.1 hys.1, List.map_cons, List.map_cons, keyOrder_cons]
      cases keyOrder (key x) (key y) with
      | lt => rfl
      | gt => rfl
      | eq => exact ih hxs.2 hys.2

end Value

/-- Null gets a key below those of all other values. -/
theorem keyed_of_ne_null {P : Value → Prop} {K : Type} [LinearOrder K] (key : Value → K)
    (hkey : ∀ v w, P v → P w → v ≠ .null → w ≠ .null →
      v.compare w = .ok (keyOrder (key v) (key w))) : Keyed P := by
  refine ⟨WithBot K, inferInstance, Value.withNull key, fun v w hv hw => ?_⟩
  by_cases hvnull : v = .null
  · subst hvnull
    by_cases hwnull : w = .null
    · subst hwnull
      exact congrArg Except.ok (keyOrder_self (⊥ : WithBot K)).symm
    · have hlt : keyOrder (Value.null.withNull key) (w.withNull key) = .lt := by
        rw [Value.withNull_of_ne key hwnull, keyOrder_eq_lt]
        exact WithBot.bot_lt_coe _
      rw [hlt]
      cases w with
      | null => exact absurd rfl hwnull
      | _ => rfl
  · by_cases hwnull : w = .null
    · subst hwnull
      have hgt : keyOrder (v.withNull key) (Value.null.withNull key) = .gt := by
        rw [Value.withNull_of_ne key hvnull, keyOrder_eq_gt]
        exact WithBot.bot_lt_coe _
      rw [hgt]
      cases v with
      | null => exact absurd rfl hvnull
      | _ => rfl
    · rw [hkey v w hv hw hvnull hwnull, Value.withNull_of_ne key hvnull,
        Value.withNull_of_ne key hwnull]
      exact congrArg Except.ok (cmp_coe _ _).symm

namespace Shape

/-- **The values of a shape are compared as keys in a linear order.** -/
theorem keyed (T : Shape) : Keyed T.Holds := by
  induction T with
  | number =>
    refine keyed_of_ne_null (fun v => v.toNumber.place) fun v w hv hw hvnull hwnull => ?_
    cases filled_of_admits hv.shape hvnull with
    | number m =>
      cases filled_of_admits hw.shape hwnull with
      | number n =>
        change Value.compareNumbers m n = _
        rw [Value.compareNumbers, Decimal.compare_eq_cmp hv.defined hw.defined]
        rfl
  | boolean =>
    refine keyed_of_ne_null Value.flag fun v w hv hw hvnull hwnull => ?_
    cases filled_of_admits hv.shape hvnull with
    | boolean a =>
      cases filled_of_admits hw.shape hwnull with
      | boolean b => cases a <;> cases b <;> rfl
  | text =>
    refine keyed_of_ne_null Value.points fun v w hv hw hvnull hwnull => ?_
    cases filled_of_admits hv.shape hvnull with
    | text s =>
      cases filled_of_admits hw.shape hwnull with
      | text t => exact congrArg Except.ok (compare_eq_keyOrder ..)
  | collection T ih =>
    obtain ⟨K, _, key, hkey⟩ := ih
    refine keyed_of_ne_null (fun v => v.elements.map key) fun v w hv hw hvnull hwnull => ?_
    cases filled_of_admits hv.shape hvnull with
    | collection _ xs =>
      cases filled_of_admits hw.shape hwnull with
      | collection _ ys => exact Value.compareLists_eq_keyOrder hkey hv.of_mem hw.of_mem

end Shape

/-! ## Data -/

namespace Datum

/-- A datum whose value is of a shape. -/
def IsOf (T : Shape) (d : Datum) : Prop := ∃ v, d.toValue = .ok v ∧ T.Holds v

/-- A datum that comes before another one or is equal to it. -/
def AtMost (a b : Datum) : Prop := ∃ o, a.compare b = .ok o ∧ o.isLE = true

theorem atMost_iff {K : Type} [LinearOrder K] {k l : K} {a b : Datum}
    (h : a.compare b = .ok (keyOrder k l)) : a.AtMost b ↔ k ≤ l := by
  rw [AtMost, h]
  rcases lt_trichotomy k l with hlt | heq | hgt
  · rw [keyOrder_eq_lt.2 hlt]
    exact ⟨fun _ => hlt.le, fun _ => ⟨.lt, rfl, rfl⟩⟩
  · rw [keyOrder_eq_eq.2 heq]
    exact ⟨fun _ => heq.le, fun _ => ⟨.eq, rfl, rfl⟩⟩
  · rw [keyOrder_eq_gt.2 hgt]
    refine ⟨?_, fun hle => absurd hgt hle.not_gt⟩
    rintro ⟨o, ho, hle⟩
    cases ho
    cases hle

/-- **Comparison is a total preorder on the data of a shape, and none on all data.**  Of any two
data of a shape one is at most the other, and what is at most something is at most all that comes
after it; data that are equal compare in the same way to every third, from either side.  Across
kinds the order goes round in a circle. -/
theorem compare_preorder :
    (∀ (T : Shape) (a b c : Datum),
      a.IsOf T → b.IsOf T → c.IsOf T →
        (a.AtMost b ∨ b.AtMost a) ∧
        (a.AtMost b → b.AtMost c → a.AtMost c) ∧
        (a.compare b = .ok .eq → a.compare c = b.compare c ∧ c.compare a = c.compare b)) ∧
    ∃ a b c : Datum, a.isDefined = true ∧ b.isDefined = true ∧ c.isDefined = true ∧
      a.AtMost b ∧ b.AtMost c ∧ ¬ a.AtMost c := by
  constructor
  · rintro T a b c ⟨u, hau, hu⟩ ⟨v, hbv, hv⟩ ⟨w, hcw, hw⟩
    obtain ⟨K, _, key, hkey⟩ := T.keyed
    have hcompare : ∀ {x y : Datum} {s t : Value}, x.toValue = .ok s → y.toValue = .ok t →
        T.Holds s → T.Holds t → x.compare y = .ok (keyOrder (key s) (key t)) :=
      fun hx hy hs ht => (compare_of_values hx hy).trans (hkey _ _ hs ht)
    have hab := hcompare hau hbv hu hv
    have hba := hcompare hbv hau hv hu
    have hbc := hcompare hbv hcw hv hw
    have hac := hcompare hau hcw hu hw
    rw [atMost_iff hab, atMost_iff hba, atMost_iff hbc, atMost_iff hac]
    refine ⟨le_total _ _, le_trans, fun heq => ?_⟩
    rw [hab, Except.ok.injEq, keyOrder_eq_eq] at heq
    rw [hac, hbc, hcompare hcw hau hw hu, hcompare hcw hbv hw hv, heq]
    exact ⟨rfl, rfl⟩
  · -- The texts are compared by their characters, and each of them to the number by its digits.
    refine ⟨.text "10", .text "9", .int 9, by decide +kernel, by decide +kernel, by decide +kernel,
      ⟨.lt, by decide +kernel, rfl⟩, ⟨.eq, by decide +kernel, rfl⟩, ?_⟩
    rintro ⟨o, ho, hle⟩
    have hgt : compare (.text "10") (.int 9) = .ok .gt := by decide +kernel
    rw [hgt] at ho
    cases ho
    cases hle

/-- A collection of a collection of numbers. -/
def sampleShort : Datum := .list [.list [.decimal (.finite false 10 (-1)), .null], .null]

/-- The same numbers written with one more digit, and held by a tuple. -/
def sampleLong : Datum := .list [.tuple [.decimal (.finite false 100 (-2)), .null], .null]

/-- A collection of the same shape with one more number inside. -/
def sampleLonger : Datum := .tuple [.list [.int 1, .null, .int 0]]

/-- Data that are equal compare in the same way to a third. -/
theorem compare_preorderSample :
    sampleShort.compare sampleLong = .ok .eq ∧ sampleLong.AtMost sampleLonger ∧
      sampleShort.AtMost sampleLonger ∧
      sampleShort.compare sampleLonger = sampleLong.compare sampleLonger := by
  have hequal : sampleShort.compare sampleLong = .ok .eq := by decide +kernel
  have hbelow : sampleLong.AtMost sampleLonger := ⟨.lt, by decide +kernel, rfl⟩
  obtain ⟨-, htrans, hcongr⟩ := compare_preorder.1 (.collection (.collection .number))
    sampleShort sampleLong sampleLonger ⟨_, rfl, by decide +kernel⟩ ⟨_, rfl, by decide +kernel⟩
    ⟨_, rfl, by decide +kernel⟩
  exact ⟨hequal, hbelow, htrans ⟨.eq, hequal, rfl⟩ hbelow, (hcongr hequal).1⟩

end Datum

end BusinessRules

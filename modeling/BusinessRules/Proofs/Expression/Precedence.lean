import BusinessRules.Proofs.Expression.Sequence

/-!
# Conventional precedence and the ladder

By convention multiplications and divisions are carried out before additions and subtractions, and
those of one kind from left to right.  The ladder carries out additions and multiplications from
right to left, and divisions before multiplications.  The results are the same for all operations
that satisfy four laws of regrouping.

That this is so rests on where the ladder takes a sequence apart: at the *last* subtraction and at
the *last* division.  Behind these no operation of the same kind or of an earlier kind is left, so
that no law is needed there, and none would hold.

## Main definitions

* `products`, `conventional`: the two passes of convention
* `Regroups`: the laws

## Main statements

* `ladder_eq_conventional`: under these laws the ladder is conventional
-/

namespace BusinessRules.Expression

/-- Whether an operation is an addition or a subtraction. -/
def Operation.isAdditive : Operation → Bool
  | .add | .sub => true
  | .mul | .div => false

namespace Sequence

variable {α : Type}

/-- The operands behind the first one, each with the operation in front of it. -/
def tail : Sequence α → List (Operation × α)
  | single _ => []
  | link _ _ op _ rest => (op, rest.head) :: rest.tail

/-- The operations, from left to right. -/
def operations (s : Sequence α) : List Operation := s.tail.map Prod.fst

/-- Carry out multiplications and divisions from left to right.  What is left is a first operand
and others with additions and subtractions in front of them. -/
def products (apply : Operation → α → α → α) (a : α) :
    List (Operation × α) → α × List (Operation × α)
  | [] => (a, [])
  | (op, b) :: rest =>
    if op.isAdditive then
      let (c, terms) := products apply b rest
      (a, (op, c) :: terms)
    else products apply (apply op a b) rest

/-- Carry out all operations from left to right. -/
def leftToRight (apply : Operation → α → α → α) (a : α) (terms : List (Operation × α)) : α :=
  terms.foldl (fun x t => apply t.1 x t.2) a

/-- The result of a sequence by convention: first multiplications and divisions, then additions
and subtractions, each from left to right. -/
def conventional (apply : Operation → α → α → α) (s : Sequence α) : α :=
  let (a, terms) := products apply s.head s.tail
  leftToRight apply a terms

/-- Operations that may be regrouped: an addition may wait until the additions and subtractions
behind it are carried out, and a multiplication until the multiplications and divisions are. -/
structure Regroups (apply : Operation → α → α → α) : Prop where
  add_add : ∀ a b c, apply .add (apply .add a b) c = apply .add a (apply .add b c)
  sub_add : ∀ a b c, apply .sub (apply .add a b) c = apply .add a (apply .sub b c)
  mul_mul : ∀ a b c, apply .mul (apply .mul a b) c = apply .mul a (apply .mul b c)
  div_mul : ∀ a b c, apply .div (apply .mul a b) c = apply .mul a (apply .div b c)

/-! ## Operations of the parts -/

theorem head_join (s : Sequence α) (before : Text.Blanks) (op : Operation) (after : Text.Blanks)
    (t : Sequence α) : (s.join before op after t).head = s.head := by
  cases s <;> rfl

theorem tail_join (s : Sequence α) (before : Text.Blanks) (op : Operation) (after : Text.Blanks)
    (t : Sequence α) : (s.join before op after t).tail = s.tail ++ (op, t.head) :: t.tail := by
  induction s with
  | single a => rfl
  | link a b o c rest ih => rw [join, tail, tail, ih, head_join, List.cons_append]

theorem operations_join (s : Sequence α) (before : Text.Blanks) (op : Operation)
    (after : Text.Blanks) (t : Sequence α) :
    (s.join before op after t).operations = s.operations ++ op :: t.operations := by
  rw [operations, tail_join, List.map_append, List.map_cons, operations, operations]

theorem not_mem_of_firstSplit? {op : Operation} {s : Sequence α} (h : s.firstSplit? op = none) :
    op ∉ s.operations := by
  induction s with
  | single a => simp [operations, tail]
  | link a before o after rest ih =>
    rw [firstSplit?] at h
    split at h
    · cases h
    · next ho =>
      rw [Option.map_eq_none_iff] at h
      rw [operations, tail, List.map_cons, List.mem_cons]
      exact not_or.2 ⟨Ne.symm ho, ih h⟩

theorem not_mem_of_lastSplit? {op : Operation} {s : Sequence α} (h : s.lastSplit? op = none) :
    op ∉ s.operations := by
  induction s with
  | single a => simp [operations, tail]
  | link a before o after rest ih =>
    rw [lastSplit?, Option.or_eq_none_iff, Option.map_eq_none_iff] at h
    rw [operations, tail, List.map_cons, List.mem_cons]
    refine not_or.2 ⟨fun ho => ?_, ih h.1⟩
    rw [if_pos ho.symm] at h
    cases h.2

/-- Behind the last occurrence of an operation there is none. -/
theorem not_mem_right_of_lastSplit? {op : Operation} {s : Sequence α} {t : Split α}
    (h : s.lastSplit? op = some t) : op ∉ t.right.operations := by
  induction s generalizing t with
  | single a => cases h
  | link a before o after rest ih =>
    rw [lastSplit?, Option.or_eq_some_iff] at h
    rcases h with h | ⟨hnone, h⟩
    · obtain ⟨u, hu, rfl⟩ := Option.map_eq_some_iff.1 h
      have hright : op ∉ u.right.operations := ih hu
      exact hright
    · split at h
      · cases h
        exact not_mem_of_lastSplit? (Option.map_eq_none_iff.1 hnone)
      · cases h

/-! ## Two passes over the parts -/

variable {apply : Operation → α → α → α}

/-- The first pass does not reach across an addition or a subtraction. -/
theorem products_append {op : Operation} (hop : op.isAdditive = true) (a b : α)
    (xs ys : List (Operation × α)) :
    products apply a (xs ++ (op, b) :: ys) =
      ((products apply a xs).1,
        (products apply a xs).2 ++ (op, (products apply b ys).1) :: (products apply b ys).2) := by
  induction xs generalizing a with
  | nil => simp [products, hop]
  | cons x xs ih =>
    obtain ⟨o, c⟩ := x
    rw [List.cons_append, products, products]
    split
    · rw [ih]
      rfl
    · rw [ih]

/-- Without additions and subtractions the first pass is the only one. -/
theorem products_of_multiplicative {xs : List (Operation × α)}
    (h : ∀ x ∈ xs, x.1.isAdditive = false) (a : α) :
    products apply a xs = (leftToRight apply a xs, []) := by
  induction xs generalizing a with
  | nil => rfl
  | cons x xs ih =>
    obtain ⟨op, b⟩ := x
    rw [products, h (op, b) List.mem_cons_self, if_neg Bool.false_ne_true,
      ih (fun y hy => h y (List.mem_cons_of_mem _ hy))]
    rfl

theorem isAdditive_of_mem_products {a : α} {xs : List (Operation × α)} {t : Operation × α}
    (h : t ∈ (products apply a xs).2) : t.1.isAdditive = true := by
  induction xs generalizing a with
  | nil => cases h
  | cons x xs ih =>
    obtain ⟨op, b⟩ := x
    rw [products] at h
    split at h
    · next hop =>
      rcases List.mem_cons.1 h with rfl | h
      · exact hop
      · exact ih h
    · exact ih h

/-- An addition may wait for the additions and subtractions behind it. -/
theorem leftToRight_add (laws : Regroups apply) (a b : α) {terms : List (Operation × α)}
    (h : ∀ t ∈ terms, t.1.isAdditive = true) :
    leftToRight apply (apply .add a b) terms = apply .add a (leftToRight apply b terms) := by
  induction terms generalizing b with
  | nil => rfl
  | cons t terms ih =>
    obtain ⟨op, c⟩ := t
    have hrest := fun d => ih d fun t ht => h t (List.mem_cons_of_mem _ ht)
    have hop := h (op, c) List.mem_cons_self
    cases op with
    | add => exact (congrArg (leftToRight apply · terms) (laws.add_add a b c)).trans (hrest _)
    | sub => exact (congrArg (leftToRight apply · terms) (laws.sub_add a b c)).trans (hrest _)
    | mul => cases hop
    | div => cases hop

/-- A multiplication may wait for the multiplications and divisions behind it. -/
theorem leftToRight_mul (laws : Regroups apply) (a b : α) {terms : List (Operation × α)}
    (h : ∀ t ∈ terms, t.1.isAdditive = false) :
    leftToRight apply (apply .mul a b) terms = apply .mul a (leftToRight apply b terms) := by
  induction terms generalizing b with
  | nil => rfl
  | cons t terms ih =>
    obtain ⟨op, c⟩ := t
    have hrest := fun d => ih d fun t ht => h t (List.mem_cons_of_mem _ ht)
    have hop := h (op, c) List.mem_cons_self
    cases op with
    | mul => exact (congrArg (leftToRight apply · terms) (laws.mul_mul a b c)).trans (hrest _)
    | div => exact (congrArg (leftToRight apply · terms) (laws.div_mul a b c)).trans (hrest _)
    | add => cases hop
    | sub => cases hop

/-! ## Convention on parts -/

/-- A part without additions and subtractions. -/
def IsProduct (s : Sequence α) : Prop := ∀ t ∈ s.tail, t.1.isAdditive = false

theorem conventional_of_isProduct {s : Sequence α} (h : s.IsProduct) :
    s.conventional apply = leftToRight apply s.head s.tail := by
  rw [conventional, products_of_multiplicative h]
  rfl

theorem isProduct_of_not_mem {s : Sequence α} (hadd : .add ∉ s.operations)
    (hsub : .sub ∉ s.operations) : s.IsProduct := by
  rintro ⟨op, a⟩ ht
  have hop : op ∈ s.operations := List.mem_map_of_mem ht
  cases op with
  | add => exact absurd hop hadd
  | sub => exact absurd hop hsub
  | mul => rfl
  | div => rfl

theorem leftToRight_append (a b : α) (op : Operation) (xs ys : List (Operation × α)) :
    leftToRight apply a (xs ++ (op, b) :: ys) =
      leftToRight apply (apply op (leftToRight apply a xs) b) ys := by
  rw [leftToRight, List.foldl_append, List.foldl_cons]
  rfl

theorem conventional_add (laws : Regroups apply) (t : Split α) :
    (t.join .add).conventional apply =
      apply .add (t.left.conventional apply) (t.right.conventional apply) := by
  rw [conventional, Split.join, head_join, tail_join, products_append rfl]
  simp only [leftToRight_append]
  exact leftToRight_add laws _ _ fun _ h => isAdditive_of_mem_products h

theorem conventional_sub {t : Split α} (hright : t.right.IsProduct) :
    (t.join .sub).conventional apply =
      apply .sub (t.left.conventional apply) (t.right.conventional apply) := by
  rw [conventional_of_isProduct hright, conventional, Split.join, head_join, tail_join,
    products_append rfl, products_of_multiplicative hright]
  simp only [leftToRight_append]
  rfl

theorem conventional_mul (laws : Regroups apply) {t : Split α} (hleft : t.left.IsProduct)
    (hright : t.right.IsProduct) : (t.join .mul).conventional apply =
      apply .mul (t.left.conventional apply) (t.right.conventional apply) := by
  have hjoin : (t.join .mul).IsProduct := by
    rw [IsProduct, Split.join, tail_join]
    exact List.forall_mem_append.2 ⟨hleft, List.forall_mem_cons.2 ⟨rfl, hright⟩⟩
  rw [conventional_of_isProduct hjoin, conventional_of_isProduct hleft,
    conventional_of_isProduct hright, Split.join, head_join, tail_join, leftToRight_append,
    leftToRight_mul laws _ _ hright]

theorem conventional_div {t : Split α} (hleft : t.left.IsProduct) {a : α}
    (hright : t.right = single a) : (t.join .div).conventional apply =
      apply .div (t.left.conventional apply) (t.right.conventional apply) := by
  have hjoin : (t.join .div).IsProduct := by
    rw [IsProduct, Split.join, tail_join, hright]
    exact List.forall_mem_append.2 ⟨hleft, List.forall_mem_singleton.2 rfl⟩
  rw [conventional_of_isProduct hjoin, conventional_of_isProduct hleft, Split.join, head_join,
    tail_join, leftToRight_append, hright]
  rfl

/-- Only a single operand has no operation. -/
theorem exists_single_of_operations {s : Sequence α} (h : ∀ op, op ∉ s.operations) :
    ∃ a, s = single a := by
  cases s with
  | single a => exact ⟨a, rfl⟩
  | link a before op after rest => exact absurd List.mem_cons_self (h op)

/-- **Under the laws of regrouping the ladder is conventional.** -/
theorem ladder_eq_conventional (laws : Regroups apply) (s : Sequence α) :
    s.ladder apply = s.conventional apply := by
  induction hn : s.size using Nat.strong_induction_on generalizing s with
  | _ n ih =>
    rcases h : s.mainSplit? with _ | ⟨op, t⟩
    · obtain ⟨a, rfl⟩ := exists_single_of_mainSplit? h
      rw [ladder_single]
      rfl
    · have hlt := size_lt_of_mainSplit? h
      rw [ladder_of_mainSplit? apply h, ih _ (hn ▸ hlt.1) t.left rfl, ih _ (hn ▸ hlt.2) t.right rfl]
      have hparts : ∀ o ∉ s.operations, o ∉ t.left.operations ∧ o ∉ t.right.operations := by
        intro o ho
        rw [eq_join_of_mainSplit? h, Split.join, operations_join, List.mem_append, List.mem_cons,
          not_or, not_or] at ho
        exact ⟨ho.1, ho.2.2⟩
      rw [eq_join_of_mainSplit? h]
      simp only [mainSplit?, Option.or_eq_some_iff, Option.map_eq_some_iff, Option.map_eq_none_iff,
        Prod.mk.injEq] at h
      rcases h with ⟨t, -, rfl, rfl⟩ | ⟨hadd, ⟨t, hsub, rfl, rfl⟩ | ⟨hsub, h⟩⟩
      · exact (conventional_add laws t).symm
      · -- No addition is left anywhere, and no subtraction on the right.
        have hadd := (hparts _ (not_mem_of_firstSplit? hadd)).2
        exact (conventional_sub (isProduct_of_not_mem hadd (not_mem_right_of_lastSplit? hsub))).symm
      · obtain ⟨hladd, hradd⟩ := hparts _ (not_mem_of_firstSplit? hadd)
        obtain ⟨hlsub, hrsub⟩ := hparts _ (not_mem_of_lastSplit? hsub)
        rcases h with ⟨t, -, rfl, rfl⟩ | ⟨hmul, t, hdiv, rfl, rfl⟩
        · exact (conventional_mul laws (isProduct_of_not_mem hladd hlsub)
            (isProduct_of_not_mem hradd hrsub)).symm
        · -- Nothing at all is left on the right.
          have hrmul := (hparts _ (not_mem_of_firstSplit? hmul)).2
          have hrdiv := not_mem_right_of_lastSplit? hdiv
          obtain ⟨a, ha⟩ := exists_single_of_operations fun op => by
            cases op with
            | add => exact hradd
            | sub => exact hrsub
            | mul => exact hrmul
            | div => exact hrdiv
          exact (conventional_div (isProduct_of_not_mem hladd hlsub) ha).symm

end Sequence

end BusinessRules.Expression

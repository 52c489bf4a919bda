import BusinessRules.Proofs.Expression.Refinement

/-!
# Two texts followed side by side

Two evaluations are compared by replacing the groups of both texts in step.  The texts at hand may
differ from the start, in front of the group at hand and behind it, as long as they are texts of
trees of one shape: then the last groups of both are at the same place, are replaced at the same
time, and leave two flat texts that are taken apart at the same operations.

What is to be shown of a relation between operands is thereby local: how it treats a word, a sign,
and the literals of two related values.

## Main definitions

* `Rewritten`: what the replacement of all groups in a part of two texts comes to

## Main statements

* `evaluateFlat_related`: the evaluations of two flat texts with related operands
* `Rewritten.signed`, `Rewritten.group`, `Rewritten.link`: one step of the trees
* `Rewritten.agree`: the evaluations of two texts
-/

namespace BusinessRules.Expression

open Text (Blanks)

variable {p : Precision} {names₁ names₂ : Names}

/-! ## Flat texts -/

variable {V : Value → Value → Prop}

/-- Operations on related outcomes have related outcomes, if those on related values have. -/
theorem Operation.combine_related
    (happly : ∀ (op : Operation) (v v' w w' : Value), V v v' → V w w' →
      Agree Eq V (op.apply p v w) (op.apply p v' w'))
    (op : Operation) {x x' y y' : Outcome Value} (hx : Agree Eq V x x') (hy : Agree Eq V y y') :
    Agree Eq V (op.combine p x y) (op.combine p x' y') := by
  cases hx with
  | error hfg => exact .error hfg
  | ok hv =>
    cases hy with
    | error hfg => exact .error hfg
    | ok hw => exact happly op _ _ _ _ hv hw

variable {R : Operand → Operand → Prop}

theorem Formula.isFlat_of_related (hflat : ∀ o o', R o o' → o.IsFlat ∧ o'.IsFlat) {s s' : Formula}
    (h : Sequence.Related R s s') : Formula.IsFlat s ∧ Formula.IsFlat s' := by
  induction h with
  | single ho =>
    have hparts := hflat _ _ ho
    exact ⟨Formula.isFlat_single hparts.1, Formula.isFlat_single hparts.2⟩
  | link ho _ ih =>
    have hparts := hflat _ _ ho
    exact ⟨List.forall_mem_cons.2 ⟨hparts.1, ih.1⟩, List.forall_mem_cons.2 ⟨hparts.2, ih.2⟩⟩

/-- **The evaluations of two flat texts with related operands** are related, if those of the
operands are and operations respect it. -/
theorem evaluateFlat_related (hflat : ∀ o o', R o o' → o.IsFlat ∧ o'.IsFlat)
    (hoperand : ∀ o o', R o o' →
      Agree Eq V (evaluateFlat p names₁ o.text) (evaluateFlat p names₂ o'.text))
    (happly : ∀ (op : Operation) (v v' w w' : Value), V v v' → V w w' →
      Agree Eq V (op.apply p v w) (op.apply p v' w'))
    {s s' : Formula} (h : Sequence.Related R s s') :
    Agree Eq V (evaluateFlat p names₁ (Formula.text s))
      (evaluateFlat p names₂ (Formula.text s')) := by
  induction hn : s.size using Nat.strong_induction_on generalizing s s' with
  | _ n ih =>
    subst hn
    obtain ⟨hs, hs'⟩ := Formula.isFlat_of_related hflat h
    rcases h.mainSplit? with ⟨hsplit, hsplit'⟩ | ⟨op, u, v, hu, hv, huv⟩
    · obtain ⟨o, rfl⟩ := Sequence.exists_single_of_mainSplit? hsplit
      obtain ⟨o', rfl⟩ := Sequence.exists_single_of_mainSplit? hsplit'
      cases h with
      | single ho => exact hoperand o o' ho
    · -- Both texts are taken apart at the same operation.
      have hcut := Formula.cut hs hu
      have hcut' := Formula.cut hs' hv
      have hlt := Sequence.size_lt_of_mainSplit? hu
      rw [evaluateFlat_split (not_closing_of_flat hs) hcut.main, hcut.left, hcut.right,
        evaluateFlat_split (not_closing_of_flat hs') hcut'.main, hcut'.left, hcut'.right]
      exact op.combine_related happly (ih _ hlt.1 huv.left rfl) (ih _ hlt.2 huv.right rfl)

/-! ## Groups in two texts -/

/-- What the replacement of all groups in two parts of two texts comes to: faults of both texts, or
related parts in whose places the texts are evaluated alike. -/
inductive Rewritten {α : Type} (p : Precision) (names₁ names₂ : Names) (E : Fault → Fault → Prop)
    (text : α → List Char) (R : α → α → Prop) (before₁ after₁ before₂ after₂ : List Char)
    (x x' : α) : Prop
  | failed (f g : Fault) (faults : E f g)
    (left : evaluateArithmetic p names₁ (before₁ ++ text x ++ after₁) = .error f)
    (right : evaluateArithmetic p names₂ (before₂ ++ text x' ++ after₂) = .error g)
  | done (y z : α) (related : R y z)
    (left : evaluateArithmetic p names₁ (before₁ ++ text x ++ after₁) =
      evaluateArithmetic p names₁ (before₁ ++ text y ++ after₁))
    (right : evaluateArithmetic p names₂ (before₂ ++ text x' ++ after₂) =
      evaluateArithmetic p names₂ (before₂ ++ text z ++ after₂))

namespace Rewritten

variable {E : Fault → Fault → Prop} {before₁ after₁ before₂ after₂ : List Char}
  {o o' : Operand} {s s' : Formula} {R' : Operand → Operand → Prop}
  {S S' : Formula → Formula → Prop}

/-- The operand of a sign. -/
theorem signed (negative : Bool) (gap : Blanks)
    (h : Rewritten p names₁ names₂ E Operand.text R (before₁ ++ signSymbol negative :: gap.chars)
      after₁ (before₂ ++ signSymbol negative :: gap.chars) after₂ o o')
    (hsigned : ∀ y z, R y z → R' (.signed negative gap y) (.signed negative gap z)) :
    Rewritten p names₁ names₂ E Operand.text R' before₁ after₁ before₂ after₂
      (.signed negative gap o) (.signed negative gap o') := by
  cases h with
  | failed f g faults left right =>
    exact .failed f g faults (by rw [Operand.text_signed_between, left])
      (by rw [Operand.text_signed_between, right])
  | done y z related left right =>
    exact .done (.signed negative gap y) (.signed negative gap z) (hsigned y z related)
      (by rw [Operand.text_signed_between, left, Operand.text_signed_between])
      (by rw [Operand.text_signed_between, right, Operand.text_signed_between])

/-- The inside of a group.  The group is replaced by the literals of two values, unless neither has
one. -/
theorem group (front back : Blanks) (hbefore₁ : quoteAfter none before₁ = none)
    (hbefore₂ : quoteAfter none before₂ = none) (hafter₁ : '(' ∉ mask after₁)
    (hafter₂ : '(' ∉ mask after₂) (hE : ∀ f, E f f)
    (h : Rewritten p names₁ names₂ E Formula.text S (before₁ ++ '(' :: front.chars)
      (back.chars ++ ')' :: after₁) (before₂ ++ '(' :: front.chars) (back.chars ++ ')' :: after₂)
      s s')
    (hflat : ∀ y z, S y z → Formula.IsFlat y ∧ Formula.IsFlat z)
    (hvalues : ∀ y z, S y z → Agree Eq V (evaluateFlat p names₁ (Formula.text y))
      (evaluateFlat p names₂ (Formula.text z)))
    (hliterals : ∀ v w, V v w →
      (∃ y z : Operand, Literal.format v = .ok y.text ∧ Literal.format w = .ok z.text ∧ R y z) ∨
        ∃ f g, Literal.format v = .error f ∧ Literal.format w = .error g ∧
          ∀ t u, E (.ungroupable t) (.ungroupable u)) :
    Rewritten p names₁ names₂ E Operand.text R before₁ after₁ before₂ after₂
      (.group front s back) (.group front s' back) := by
  cases h with
  | failed f g faults left right =>
    exact .failed f g faults (by rw [Operand.text_group_between, left])
      (by rw [Operand.text_group_between, right])
  | done y z related left right =>
    obtain ⟨hy, hz⟩ := hflat y z related
    have hagree := hvalues y z related
    rw [← Operand.text_group_between, group_between,
      evaluateArithmetic_inside hy front back hbefore₁ hafter₁] at left
    rw [← Operand.text_group_between, group_between,
      evaluateArithmetic_inside hz front back hbefore₂ hafter₂] at right
    generalize evaluateFlat p names₁ (Formula.text y) = x₁ at hagree left
    generalize evaluateFlat p names₂ (Formula.text z) = x₂ at hagree right
    cases hagree with
    | @error f g hfg => exact .failed f g (hfg ▸ hE f) left right
    | @ok v w hvw =>
      rcases hliterals v w hvw with ⟨y', z', hy', hz', hR⟩ | ⟨f, g, hf, hg, hungroupable⟩
      · simp only [hy'] at left
        simp only [hz'] at right
        exact .done y' z' hR left right
      · simp only [hf] at left
        simp only [hg] at right
        exact .failed _ _ (hungroupable _ _) left right

/-- An operand in front of others.  These come first, with what stands in front of them still as it
was; then the operand, with what stands behind it flat already. -/
theorem link (gap : Blanks) (op : Operation) (gap' : Blanks) (hafter₁ : '(' ∉ mask after₁)
    (hafter₂ : '(' ∉ mask after₂)
    (hrest : Rewritten p names₁ names₂ E Formula.text S
      (before₁ ++ (o.text ++ (gap.chars ++ op.symbol :: gap'.chars))) after₁
      (before₂ ++ (o'.text ++ (gap.chars ++ op.symbol :: gap'.chars))) after₂ s s')
    (hoperand : ∀ {behind₁ behind₂ : List Char}, '(' ∉ mask behind₁ → '(' ∉ mask behind₂ →
      Rewritten p names₁ names₂ E Operand.text R before₁ behind₁ before₂ behind₂ o o')
    (hflat : ∀ y z, S y z → Formula.IsFlat y ∧ Formula.IsFlat z)
    (hlink : ∀ y z t u, R y z → S t u → S' (.link y gap op gap' t) (.link z gap op gap' u)) :
    Rewritten p names₁ names₂ E Formula.text S' before₁ after₁ before₂ after₂
      (.link o gap op gap' s) (.link o' gap op gap' s') := by
  have hoperation := shows_operation gap op gap'
  cases hrest with
  | failed f g faults left right =>
    exact .failed f g faults (by rw [Formula.text_rest_between, left])
      (by rw [Formula.text_rest_between, right])
  | done t u related left right =>
    obtain ⟨ht, hu⟩ := hflat t u related
    cases hoperand
      (hoperation.not_mem_append ((Formula.shows_flat ht).not_mem_append hafter₁))
      (hoperation.not_mem_append ((Formula.shows_flat hu).not_mem_append hafter₂)) with
    | failed f g faults left' right' =>
      refine .failed f g faults ?_ ?_
      · rw [Formula.text_rest_between, left, ← Formula.text_rest_between,
          Formula.text_head_between, left']
      · rw [Formula.text_rest_between, right, ← Formula.text_rest_between,
          Formula.text_head_between, right']
    | done y z related' left' right' =>
      refine .done (.link y gap op gap' t) (.link z gap op gap' u) (hlink y z t u related' related)
        ?_ ?_
      · rw [Formula.text_rest_between, left, ← Formula.text_rest_between,
          Formula.text_head_between, left', Formula.text_head_between]
      · rw [Formula.text_rest_between, right, ← Formula.text_rest_between,
          Formula.text_head_between, right', Formula.text_head_between]

/-- A single operand. -/
theorem single (h : Rewritten p names₁ names₂ E Operand.text R before₁ after₁ before₂ after₂ o o')
    (hsingle : ∀ y z, R y z → S (.single y) (.single z)) :
    Rewritten p names₁ names₂ E Formula.text S before₁ after₁ before₂ after₂ (.single o)
      (.single o') := by
  cases h with
  | failed f g faults left right => exact .failed f g faults left right
  | done y z related left right =>
    exact .done (.single y) (.single z) (hsingle y z related) left right

/-- **The evaluations of two texts**, once all groups are replaced. -/
theorem agree (hE : ∀ f, E f f)
    (h : Rewritten p names₁ names₂ E Formula.text S [] [] [] [] s s')
    (hflat : ∀ y z, S y z → Formula.IsFlat y ∧ Formula.IsFlat z)
    (hvalues : ∀ y z, S y z → Agree Eq V (evaluateFlat p names₁ (Formula.text y))
      (evaluateFlat p names₂ (Formula.text z))) :
    Agree E V (evaluateArithmetic p names₁ (Formula.text s))
      (evaluateArithmetic p names₂ (Formula.text s')) := by
  have hplain : ∀ cs : List Char, [] ++ cs ++ [] = cs := fun cs => by
    rw [List.nil_append, List.append_nil]
  have hgroupless : ∀ {names : Names} {t : Formula}, Formula.IsFlat t →
      evaluateArithmetic p names (Formula.text t) = evaluateFlat p names (Formula.text t) := by
    intro names t ht
    have hpadded : evaluateArithmetic p names ([] ++ Formula.text t ++ []) = _ :=
      evaluateArithmetic_flat ht .none .none
    rwa [hplain] at hpadded
  cases h with
  | failed f g faults left right =>
    rw [hplain] at left right
    rw [left, right]
    exact .error faults
  | done y z related left right =>
    obtain ⟨hy, hz⟩ := hflat y z related
    rw [hplain, hplain] at left right
    rw [left, right, hgroupless hy, hgroupless hz]
    exact (hvalues y z related).mono (fun f g hfg => hfg ▸ hE f) fun _ _ => id

end Rewritten

end BusinessRules.Expression

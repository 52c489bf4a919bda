import BusinessRules.Expression.Statement
import BusinessRules.Proofs.Expression.Splice

/-!
# Texts mean what their trees mean

The evaluator never builds a tree.  Still, on the text of a formula it computes the value of the
formula, whatever signs, powers of ten, quoted operators and nested groups the text holds, as long
as the precision can represent the numbers in it and those that its names stand for.

## Main statements

* `evaluateArithmetic_formula`: the value of an arithmetic text between blanks
* `evaluateExpression_formula`: the value of an expression that is the text of a formula
-/

namespace BusinessRules.Expression

/- Powers are the plain ones of the natural numbers and the integers. -/
attribute [local instance (2000)] instPowNat

open Text (Blanks Tight)

variable {p : Precision} {names : Names}

/-- Without groups, only the trimmed text counts. -/
theorem evaluateArithmetic_flat {s : Formula} (hs : Formula.IsFlat s) (front back : Blanks) :
    evaluateArithmetic p names (front.chars ++ Formula.text s ++ back.chars) =
      evaluateFlat p names (Formula.text s) := by
  have hgroup : hasGroup (Formula.text s) = false := by
    rw [hasGroup, Bool.eq_false_iff]
    intro h
    exact (not_mem_of_shows (Formula.shows_flat hs)).1 (by simpa using h)
  rw [evaluateArithmetic, (Formula.tight s).trim front.blank back.blank, evaluateGroups,
    if_neg (by rw [hgroup]; exact Bool.false_ne_true)]

/-- A word alone is evaluated to its value, whatever its number. -/
theorem evaluateArithmetic_leaf (l : Leaf) : evaluateArithmetic p names l.text = l.value names := by
  have harithmetic : evaluateArithmetic p names (Blanks.none.chars ++ l.text ++ Blanks.none.chars) =
      evaluateFlat p names l.text :=
    evaluateArithmetic_flat (s := .single (.leaf l)) (Formula.isFlat_single trivial) .none .none
  rw [show Blanks.none.chars = [] from rfl, List.nil_append, List.append_nil] at harithmetic
  rw [harithmetic, evaluateFlat_word]

/-- **A text is evaluated to the outcome of its tree**, up to the way numbers are written. -/
theorem evaluateArithmetic_formula (hnames : NamesFit p names) (s : Formula)
    (hfits : Formula.Fits p s) (front back : Blanks) :
    Agree SameFault Alike
      (evaluateArithmetic p names (front.chars ++ Formula.text s ++ back.chars))
      (Formula.outcome p names s) := by
  have hfront : quoteAfter none front.chars = none :=
    (Shows.blanks isNoParen_of_isFlatChar front).closed
  have hback : '(' ∉ mask back.chars :=
    (not_mem_of_shows (Shows.blanks isNoParen_of_isFlatChar back)).1
  -- First all groups are replaced, then the flat text that is left is evaluated.
  cases Formula.flatten hnames s hfits hfront hback with
  | failed f g found same result =>
    rw [result, Formula.outcome, found]
    exact .error same
  | done flat found flattening result =>
    have hvalue := agree_close_trans
      (evaluateFlat_formula hnames flat flattening.flat flattening.fits) flattening.value
    rw [result, evaluateArithmetic_flat flattening.flat, Formula.outcome, found]
    exact hvalue.mono (fun _ _ => .inl) (fun _ _ h => h.alike)

/-- No formula shows an equals sign. -/
theorem occurrences_equals (s : Formula) : occurrences '=' (mask (Formula.text s)) = [] := by
  rw [List.eq_nil_iff_forall_not_mem]
  intro i hi
  have hmem : '=' ∈ mask (Formula.text s) := List.mem_of_getElem? (mem_occurrences.1 hi)
  have hshows : Shows (· != '=') (Formula.text s) := by
    refine Formula.shows ?_ s (.inr (by decide))
    intro c hc
    rw [bne_iff_ne]
    exact ne_of_class hc (by decide)
  exact absurd (hshows.all _ hmem) (by decide)

/-- **An expression that is the text of a formula has the value of the formula, or fails with its
fault, and binds nothing.**  The outcome of a formula is a value exactly if the value of the tree
exists; faults of groups only come before others. -/
theorem evaluateExpression_formula {env : Environment} (henv : env.precision = .ok p)
    (context : Context) (hnames : NamesFit p context.values) (s : Formula)
    (hfits : Formula.Fits p s) (front back : Blanks) :
    Agree SameFault (fun r v => Alike r.1 v ∧ r.2 = context)
        (evaluateExpression env context
          (String.ofList (front.chars ++ Formula.text s ++ back.chars)))
        (Formula.outcome p context.values s) ∧
      ∀ v, Formula.outcome p context.values s = .ok v ↔
        Formula.value p context.values s = .ok v := by
  refine ⟨?_, fun v => Formula.outcome_ok_iff⟩
  -- No sign of assignment is found, so that the text is computed and the context left alone.
  have hstatement : Statement.ofText
      (String.ofList (front.chars ++ Formula.text s ++ back.chars)) (Formula.text s) =
        .ok (.compute (Formula.text s)) := by
    rw [Statement.ofText, occurrences_equals]
  have hagree := evaluateArithmetic_formula hnames s hfits .none .none
  rw [show Blanks.none.chars = [] from rfl, List.nil_append, List.append_nil] at hagree
  rw [evaluateExpression, (Formula.tight s).isBlankText, if_neg Bool.false_ne_true, henv]
  simp only [String.toList_ofList, (Formula.tight s).trim front.blank back.blank, hstatement,
    Statement.run]
  generalize evaluateArithmetic p context.values (Formula.text s) = x at hagree ⊢
  generalize Formula.outcome p context.values s = y at hagree ⊢
  cases hagree with
  | error h => exact .error h
  | ok h => exact .ok ⟨h, rfl⟩

/-- The formula `2 * (x - '1')`. -/
def sampleFormula : Formula :=
  .link (.leaf (.number ['2'] (by decide))) .space .mul .space <|
    .single <| .group .none
      (.link (.leaf (.name ['x'] (by decide))) .space .sub .space <|
        .single (.leaf (.quoted '\'' ['1'] (by decide) (by decide)))) .none

/-- Facts that bind `x` to the text `3`. -/
def sampleFacts : Context := .facts ⟨[("x", .text "3")]⟩

/-- Numbers of one digit fit any precision. -/
theorem fits_digit {c : Nat} (hc : c < 10) (p : Precision) : (Decimal.finite false c 0).Fits p := by
  have hleast := (Decimal.leastExponent_bounds p).2
  have hpow : 10 ^ 1 ≤ 10 ^ p.digits := Nat.pow_le_pow_right (by decide) p.positive
  have hdigits : digitCount c ≤ 1 := (digitCount_le_iff c 1 (by decide)).2 hc
  simp only [Decimal.minExponent] at hleast
  refine Decimal.fits_of_short false (by omega) (by omega) ?_
  simp only [Decimal.adjusted, Decimal.maxExponent]
  omega

theorem namesFit_sampleFacts (p : Precision) : NamesFit p sampleFacts.values := by
  intro name v h
  have hv : v = .text "3" := by
    obtain ⟨d, hd, hvalue⟩ := Context.exists_of_values h
    simp only [sampleFacts, Context.lookup, Facts.get?, List.lookup] at hd
    split at hd
    · cases hd
      cases hvalue
      rfl
    · cases hd
  have hthree : (Value.text "3").toNumber = .finite false 3 0 := by decide +kernel
  rw [hv, hthree]
  exact fits_digit (by decide) p

theorem fits_sampleFormula (p : Precision) : Formula.Fits p sampleFormula := by
  have htwo : (Numeral.read? ['2']).bind Numeral.toDecimal? = some (.finite false 2 0) := by
    decide +kernel
  have hone : Value.numberOfText (String.ofList ['1']) = .finite false 1 0 := by decide +kernel
  intro l hl
  simp only [sampleFormula, Formula.leaves, Operand.leaves, List.cons_append, List.nil_append,
    List.mem_cons, List.not_mem_nil, or_false] at hl
  rcases hl with rfl | rfl | rfl
  · exact ⟨_, htwo, fits_digit (by decide) p⟩
  · trivial
  · rw [Leaf.Fits, hone]
    exact fits_digit (by decide) p

/-- The number that an outcome is. -/
def number? : Outcome Value → Option Decimal
  | .ok (.number n) => some n
  | _ => none

/-- An outcome whose number is known. -/
theorem exists_of_number? {r : Outcome (Value × Context)} {n : Decimal}
    (h : number? (r.map Prod.fst) = some n) : ∃ context', r = .ok (.number n, context') := by
  rcases r with f | ⟨v, context'⟩
  · cases h
  · cases v with
    | number m =>
      cases h
      exact ⟨context', rfl⟩
    | _ => cases h

/-- Texts and names of every kind take part, and the result is four. -/
theorem evaluateExpression_sample :
    ∃ x, evaluateExpression [] sampleFacts "2 * (x - '1')" = .ok (.number x, sampleFacts) ∧
      x.toRat = 4 := by
  have henv : Environment.precision [] = .ok ⟨28, by decide, by decide⟩ := rfl
  have houtcome : number? (Formula.outcome ⟨28, by decide, by decide⟩ sampleFacts.values
      sampleFormula) = some (.finite false 4 0) := by decide +kernel
  obtain ⟨hagree, -⟩ := evaluateExpression_formula henv sampleFacts (namesFit_sampleFacts _)
    sampleFormula (fits_sampleFormula _) .none .none
  rw [show String.ofList (Blanks.none.chars ++ Formula.text sampleFormula ++ Blanks.none.chars) =
    "2 * (x - '1')" from rfl] at hagree
  revert hagree houtcome
  generalize evaluateExpression [] sampleFacts "2 * (x - '1')" = r
  generalize Formula.outcome _ _ sampleFormula = outcome
  intro hvalue hagree
  cases hagree with
  | error _ => cases hvalue
  | @ok result v hr =>
    obtain ⟨w, context⟩ := result
    cases v with
    | number n =>
      obtain ⟨halike, rfl⟩ := hr
      have hn : n = .finite false 4 0 := Option.some.inj hvalue
      obtain ⟨x, rfl, hx⟩ : ∃ x, w = .number x ∧ x.toRat = n.toRat := by
        rcases halike with rfl | ⟨x, y, rfl, hy, hxy⟩
        · exact ⟨n, rfl, rfl⟩
        · cases hy
          exact ⟨x, rfl, hxy.toRat_eq⟩
      refine ⟨x, rfl, ?_⟩
      rw [hx, hn, Decimal.toRat_finite]
      norm_num [Decimal.toSigned]
    | _ => cases hvalue

end BusinessRules.Expression

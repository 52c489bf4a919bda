import BusinessRules.Proofs.Expression.Meaning
import BusinessRules.Proofs.Expression.Words

/-!
# Conjunctions of disjunctions of comparisons

An atom is a comparison of two formulas or a single formula, and none of the names in it spells a
connective.  Atoms are joined by `or` and the disjunctions by `and`, in either spelling and in any
case.  Whether such a conjunction holds is decided from left to right, as far as the outcome needs.

## Main definitions

* `testWhile`: the outcome of tests up to the first with another result
* `Side`, `Atom`, `Disjunction`, `Conjunction`: the trees of conditions
* `Atom.truth`: whether an atom holds
* `Conjunction.holds`: whether a conjunction holds, given a test of atoms
* `Conjunction.Reaches`: the atoms that an evaluation reaches

## Main statements

* `Conjunction.holds_congr`: only the atoms that are reached matter
* `Conjunction.holds_eq_error_iff`: a conjunction fails with the fault of an atom that is reached
* `Formula.lacks`: formulas without names for connectives show none
-/

namespace BusinessRules.Expression

open Text (Blanks Tight)

variable {p : Precision} {names : Names}

/-! ## Tests from left to right -/

section Tests

variable {α β : Type} {test : α → Outcome Bool}

/-- The outcome of tests that go on as long as each has a given result. -/
def testWhile (b : Bool) (test : α → Outcome Bool) : List α → Outcome Bool
  | [] => .ok b
  | x :: xs => if test x = .ok b then testWhile b test xs else test x

theorem allOf_eq_testWhile (xs : List α) : allOf test xs = testWhile true test xs := by
  induction xs with
  | nil => rfl
  | cons x xs ih =>
    rw [allOf, testWhile, ← ih]
    split
    · next h => rw [if_pos h]
    · next h => rw [if_neg h]

theorem anyOf_eq_testWhile (xs : List α) : anyOf test xs = testWhile false test xs := by
  induction xs with
  | nil => rfl
  | cons x xs ih =>
    rw [anyOf, testWhile, ← ih]
    split
    · next h => rw [if_pos h]
    · next h => rw [if_neg h]

theorem testWhile_map {b : Bool} {f : α → β} {test : β → Outcome Bool} (xs : List α) :
    testWhile b test (xs.map f) = testWhile b (fun x => test (f x)) xs := by
  induction xs with
  | nil => rfl
  | cons x xs ih => rw [List.map_cons, testWhile, testWhile, ih]

/-- Only the results of the tests matter. -/
theorem testWhile_eq_of_map {b : Bool} {test' : β → Outcome Bool} {xs : List α} {ys : List β}
    (h : xs.map test = ys.map test') : testWhile b test xs = testWhile b test' ys :=
  calc testWhile b test xs = testWhile b id (xs.map test) := by rw [testWhile_map]; rfl
    _ = testWhile b id (ys.map test') := by rw [h]
    _ = testWhile b test' ys := by rw [testWhile_map]; rfl

theorem testWhile_append {b : Bool} (xs ys : List α) : testWhile b test (xs ++ ys) =
    if testWhile b test xs = .ok b then testWhile b test ys else testWhile b test xs := by
  induction xs with
  | nil => rw [List.nil_append, testWhile, if_pos rfl]
  | cons x xs ih =>
    rw [List.cons_append, testWhile, testWhile]
    split
    · exact ih
    · rfl

theorem testWhile_singleton {b : Bool} (x : α) : testWhile b test [x] = test x := by
  rw [testWhile, testWhile]
  split
  · next h => exact h.symm
  · rfl

/-- Only the tests that are reached matter. -/
theorem testWhile_congr {b : Bool} {test' : α → Outcome Bool} {xs : List α}
    (h : ∀ before x after, xs = before ++ x :: after → (∀ y ∈ before, test y = .ok b) →
      test' x = test x) : testWhile b test' xs = testWhile b test xs := by
  induction xs with
  | nil => rfl
  | cons x xs ih =>
    have hx : test' x = test x := h [] x xs rfl (by simp)
    rw [testWhile, testWhile, hx]
    split
    · next hb =>
      refine ih fun before y after hxs hbefore => h (x :: before) y after (by rw [hxs]; rfl) ?_
      intro z hz
      rcases List.mem_cons.1 hz with rfl | hz
      · exact hb
      · exact hbefore z hz
    · rfl

/-- Any other result is that of the first test that has another one. -/
theorem testWhile_eq_iff {b : Bool} {xs : List α} {r : Outcome Bool} (hr : r ≠ .ok b) :
    testWhile b test xs = r ↔ ∃ before x after, xs = before ++ x :: after ∧
      (∀ y ∈ before, test y = .ok b) ∧ test x = r := by
  constructor
  · intro h
    induction xs with
    | nil => exact absurd h.symm hr
    | cons x xs ih =>
      rw [testWhile] at h
      split at h
      · next hx =>
        obtain ⟨before, y, after, rfl, hbefore, hy⟩ := ih h
        refine ⟨x :: before, y, after, rfl, ?_, hy⟩
        intro z hz
        rcases List.mem_cons.1 hz with rfl | hz
        · exact hx
        · exact hbefore z hz
      · exact ⟨[], x, xs, rfl, by simp, h⟩
  · rintro ⟨before, x, after, rfl, hbefore, hx⟩
    induction before with
    | nil => rw [List.nil_append, testWhile, hx, if_neg hr]
    | cons y before ih =>
      rw [List.cons_append, testWhile, if_pos (hbefore y List.mem_cons_self)]
      exact ih fun z hz => hbefore z (List.mem_cons_of_mem y hz)

end Tests

/-! ## Trees -/

/-- A word that would be taken for a connective. -/
def Leaf.SpellsConnective : Leaf → Prop
  | .name chars _ => ∃ k : Connective, chars.map Char.toLower ∈ k.spellings
  | _ => False

/-- A formula none of whose names spells a connective. -/
structure Side where
  formula : Formula
  free : ∀ l ∈ Formula.leaves formula, ¬ l.SpellsConnective

/-- A word alone as a side. -/
def Side.ofLeaf (l : Leaf) (free : ¬ l.SpellsConnective) : Side :=
  ⟨.single (.leaf l), fun _ hl => (List.mem_singleton.1 hl).symm ▸ free⟩

/-- The text of a side. -/
def Side.text (s : Side) : List Char := Formula.text s.formula

/-- What is joined by connectives: a comparison of two formulas, or a formula alone. -/
inductive Atom where
  | comparison (lhs : Side) (before : Blanks) (op : Comparison) (after : Blanks) (rhs : Side)
  | bare (value : Side)

/-- The text of an atom. -/
def Atom.text : Atom → List Char
  | comparison lhs before op after rhs =>
    lhs.text ++ (before.chars ++ op.symbol.toList ++ after.chars) ++ rhs.text
  | bare value => value.text

/-- Atoms joined by `or`. -/
abbrev Disjunction := Joined .or Atom

/-- Disjunctions joined by `and`. -/
abbrev Conjunction := Joined .and Disjunction

/-- The text of a conjunction. -/
def Conjunction.text (c : Conjunction) : List Char := Joined.text (Joined.text Atom.text) c

/-- Whether an atom holds.  The left side of a comparison is evaluated first. -/
def Atom.truth (p : Precision) (names : Names) : Atom → Outcome Bool
  | comparison lhs _ op _ rhs =>
    (evaluateArithmetic p names lhs.text).bind fun v =>
      (evaluateArithmetic p names rhs.text).bind fun w => v.compareWith op w
  | bare value => (evaluateArithmetic p names value.text).bind Value.isTrue

section Evaluation

variable {test test' : Atom → Outcome Bool} {c : Conjunction}

/-- Whether a disjunction holds, given a test of atoms: from left to right, up to the first atom
that holds. -/
def Disjunction.holds (test : Atom → Outcome Bool) (d : Disjunction) : Outcome Bool :=
  anyOf test d.items

/-- Whether a conjunction holds, given a test of atoms: from left to right, up to the first
disjunction that does not hold. -/
def Conjunction.holds (test : Atom → Outcome Bool) (c : Conjunction) : Outcome Bool :=
  allOf (Disjunction.holds test) c.items

/-- The evaluation of a conjunction reaches an atom: all disjunctions in front of its own hold, and
no atom in front of it in its own does. -/
def Conjunction.Reaches (test : Atom → Outcome Bool) (c : Conjunction) (a : Atom) : Prop :=
  ∃ held d left missed others, c.items = held ++ d :: left ∧
    (∀ e ∈ held, Disjunction.holds test e = .ok true) ∧ Joined.items d = missed ++ a :: others ∧
      ∀ b ∈ missed, test b = .ok false

/-- **Only the atoms that are reached matter.** -/
theorem Conjunction.holds_congr (h : ∀ a, c.Reaches test a → test' a = test a) :
    c.holds test' = c.holds test := by
  rw [Conjunction.holds, Conjunction.holds, allOf_eq_testWhile, allOf_eq_testWhile]
  refine testWhile_congr fun held d left hc hheld => ?_
  rw [Disjunction.holds, Disjunction.holds, anyOf_eq_testWhile, anyOf_eq_testWhile]
  refine testWhile_congr fun missed a others hd hmissed => ?_
  exact h a ⟨held, d, left, missed, others, hc, hheld, hd, hmissed⟩

/-- **A conjunction fails with the fault of an atom that is reached.** -/
theorem Conjunction.holds_eq_error_iff {f : Fault} :
    c.holds test = .error f ↔ ∃ a, c.Reaches test a ∧ test a = .error f := by
  have hdisjunction : ∀ d, Disjunction.holds test d = .error f ↔ ∃ missed a others,
      Joined.items d = missed ++ a :: others ∧ (∀ b ∈ missed, test b = .ok false) ∧
        test a = .error f := by
    intro d
    rw [Disjunction.holds, anyOf_eq_testWhile, testWhile_eq_iff (by simp)]
  rw [Conjunction.holds, allOf_eq_testWhile, testWhile_eq_iff (by simp)]
  constructor
  · rintro ⟨held, d, left, hc, hheld, hd⟩
    obtain ⟨missed, a, others, hd, hmissed, ha⟩ := (hdisjunction d).1 hd
    exact ⟨a, ⟨held, d, left, missed, others, hc, hheld, hd, hmissed⟩, ha⟩
  · rintro ⟨a, ⟨held, d, left, missed, others, hc, hheld, hd, hmissed⟩, ha⟩
    exact ⟨held, d, left, hc, hheld, (hdisjunction d).2 ⟨missed, a, others, hd, hmissed, ha⟩⟩

end Evaluation

/-! ## Connectives in formulas -/

theorem isSymbolChar_of_operator {c : Char} (h : operators.contains c = true) :
    isSymbolChar c = false := by
  rcases mem_operators h with rfl | rfl | rfl | rfl <;> decide

theorem isSymbolChar_of_isQuote {c : Char} (h : Literal.isQuote c = true) :
    isSymbolChar c = false := by
  rcases List.mem_pair.1 (mem_of_isQuote c h) with rfl | rfl <;> decide

theorem isUpper_of_isMantissaChar {c : Char} (h : isMantissaChar c = true) :
    c.isUpper = false := by
  have hapart : ∀ z ∈ Text.digitZeros, z + 9 < 65 ∨ 90 < z := by decide
  by_contra hupper
  simp only [Char.isUpper, Bool.not_eq_false, decide_eq_true_eq, UInt32.le_iff_toNat_le] at hupper
  have hbounds : 65 ≤ c.toNat ∧ c.toNat ≤ 90 := hupper
  rw [isMantissaChar, Bool.or_eq_true, decide_eq_true_eq] at h
  rcases h with h | rfl
  · obtain ⟨z, hz, hrange⟩ := exists_zero_of_isDigit h
    have := hapart z hz
    omega
  · revert hupper
    decide

/-- No word of a numeral spells a connective. -/
theorem lacks_numeral {k : Connective} {cs : List Char} (h : (Numeral.read? cs).isSome = true) :
    Lacks k cs := by
  have hinitial : (['a', '&', 'o', '|'].all fun d => !isMantissaChar d) = true := by decide
  refine lacks_of_forall fun c hc hmem => ?_
  rcases mem_numeral_parts h c hc with hc | (rfl | rfl) | hc
  · have hlower : c.toLower = c := by
      refine Char.toLower_eq_of_not_isUpper ?_
      rw [isUpper_of_isMantissaChar hc]
      exact Bool.false_ne_true
    have hd := List.all_eq_true.1 hinitial _ hmem
    rw [hlower, hc] at hd
    cases hd
  · revert hmem
    decide
  · revert hmem
    decide
  · rcases mem_operators hc with rfl | rfl | rfl | rfl <;> revert hmem <;> decide

/-- A text that is its own mask and has no words. -/
def Wordless (cs : List Char) : Prop :=
  ∀ c ∈ cs, Literal.isQuote c = false ∧ isSymbolChar c = false

namespace Wordless

variable {k : Connective} {as bs mid : List Char}

theorem blanks (b : Blanks) : Wordless b.chars := fun c hc =>
  ⟨isQuote_of_isBlank (b.blank c hc), isSymbolChar_of_isBlank (b.blank c hc)⟩

theorem operator {c : Char} (h : operators.contains c = true) : Wordless [c] := fun d hd => by
  rw [List.mem_singleton.1 hd]
  exact ⟨isQuote_of_operator h, isSymbolChar_of_operator h⟩

theorem append (has : Wordless as) (hbs : Wordless bs) : Wordless (as ++ bs) := fun c hc =>
  (List.mem_append.1 hc).elim (has c) (hbs c)

theorem mask_append (has : Wordless as) (bs : List Char) : mask (as ++ bs) = as ++ mask bs := by
  obtain ⟨hmask, hclosed⟩ := mask_of_no_quote fun c hc => (has c hc).1
  rw [Expression.mask_append hclosed, hmask]

theorem lacks_append (has : Wordless as) (hbs : Lacks k (mask bs)) : Lacks k (mask (as ++ bs)) := by
  rw [has.mask_append]
  exact .append_left (fun c hc => (has c hc).2) hbs

/-- No word reaches over a text without words. -/
theorem lacks_between (hmid : Wordless mid) (hne : mid ≠ []) (hclosed : quoteAfter none as = none)
    (has : Lacks k (mask as)) (hbs : Lacks k (mask bs)) : Lacks k (mask (as ++ mid ++ bs)) := by
  rw [List.append_assoc, Expression.mask_append hclosed, hmid.mask_append, ← List.append_assoc]
  exact has.append hne (fun c hc => (hmid c hc).2) hbs

end Wordless

theorem Leaf.lacks {k : Connective} (l : Leaf) (h : ¬ l.SpellsConnective) :
    Lacks k (mask l.text) := by
  cases l with
  | number cs reads =>
    rw [Leaf.text, (mask_of_no_quote _).1]
    · exact lacks_numeral reads
    · intro c hc
      rcases mem_numeral reads c hc with h | h
      · exact isQuote_of_isWordPart h
      · exact isQuote_of_operator h
  | quoted q cs isMark inside =>
    rw [Leaf.text, mask_quoted isMark inside, ← List.append_nil (q :: _)]
    refine .append_left (fun c hc => ?_) (lacks_nil k)
    simp only [List.mem_cons, List.mem_append, List.mem_replicate, List.not_mem_nil,
      or_false] at hc
    rcases hc with rfl | ⟨-, rfl⟩ | rfl
    · exact isSymbolChar_of_isQuote isMark
    · decide
    · exact isSymbolChar_of_isQuote isMark
  | name cs identifier =>
    have hchars := isNameChar_of_isIdentifier identifier
    rw [Leaf.text, (mask_of_no_quote _).1]
    · refine lacks_word (fun c hc => ?_) fun hmem => h ⟨k, hmem⟩
      rw [isSymbolChar, hchars c hc, Bool.true_or, Bool.true_or]
    · intro c hc
      exact isQuote_of_isWordPart (by rw [isWordPart, hchars c hc, Bool.true_or])

mutual

/-- Operands without names for connectives show none. -/
theorem Operand.lacks {k : Connective} : (o : Operand) →
    (∀ l ∈ o.leaves, ¬ l.SpellsConnective) → Lacks k (mask o.text)
  | .leaf l, h => l.lacks (h l List.mem_cons_self)
  | .signed negative gap o, h => by
    have hsign : Wordless (signSymbol negative :: gap.chars) :=
      (Wordless.operator (operators_signSymbol negative)).append (.blanks gap)
    exact hsign.lacks_append (Operand.lacks o h)
  | .group front inside back, h => by
    have hparen : Wordless ['('] ∧ Wordless [')'] := by
      constructor <;> intro c hc <;> rw [List.mem_singleton.1 hc] <;> decide
    have hopen : Wordless ('(' :: front.chars) := hparen.1.append (.blanks front)
    have hclose : Wordless (back.chars ++ [')']) := (Wordless.blanks back).append hparen.2
    have hbody := hclose.lacks_between (by simp) (Formula.closed inside)
      (Formula.lacks inside h) (show Lacks k (mask []) from lacks_nil k)
    rw [List.append_nil] at hbody
    rw [Operand.text, List.append_assoc, List.append_assoc]
    exact hopen.lacks_append hbody

/-- **Formulas without names for connectives show none.** -/
theorem Formula.lacks {k : Connective} : (s : Sequence Operand) →
    (∀ l ∈ Formula.leaves s, ¬ l.SpellsConnective) → Lacks k (mask (Formula.text s))
  | .single o, h => Operand.lacks o h
  | .link o before op after rest, h => by
    have hop : Wordless (before.chars ++ op.symbol :: after.chars) :=
      (Wordless.blanks before).append
        ((Wordless.operator (operators_symbol op)).append (.blanks after))
    exact hop.lacks_between (by simp) o.closed
      (Operand.lacks o fun l hl => h l (List.mem_append_left _ hl))
      (Formula.lacks rest fun l hl => h l (List.mem_append_right _ hl))

end

end BusinessRules.Expression

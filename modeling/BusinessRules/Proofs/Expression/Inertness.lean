import BusinessRules.Proofs.Expression.Lockstep
import BusinessRules.Proofs.Expression.Range

/-!
# Bound data are never read as part of the text

The value of a group is written into the text, and the text is read again.  What a name stands for
gets into the text this way, and a bound text may hold operators, parentheses, quote marks or
anything else.  Still it is a word of the text and nothing more: if the same names stand for values
of the same numbers, whatever these look like, then the computation is the same.

Two evaluations of one text are followed side by side.  The texts at hand soon differ, as one has
`'1 + 1'` where the other has `0`, but they are texts of formulas that differ in words only, and the
words that differ are interchangeable.  No number of the text has to fit the precision: a word that
does not fit is the same one in both texts (`Operand.Counterpart.fixed`), and what comes out of an
operation fits.

## Main definitions

* `Interchangeable`: values with literals that arithmetic takes for the same number
* `Counterpart`: values that two evaluations may have at the same place
* `Operand.Counterpart`: operands that two texts may have at the same place

## Main statements

* `evaluateFlat_counterpart`: the evaluations of two flat texts
* `Formula.replace`: the replacement of all groups in two texts
* `evaluateExpression_interchangeable`: the evaluations of one text in two contexts
-/

namespace BusinessRules

/-! ## Values that can be written -/

/-- A value with a literal from which its number can be read back. -/
structure Value.IsWritable (v : Value) : Prop where
  hasLiteral : v.hasLiteral = true
  inRange : v.toNumber.InRange

namespace Expression

open Text (Blanks)

theorem isWritable_number {x : Decimal} (h : x.InRange) : (Value.number x).IsWritable := ⟨rfl, h⟩

theorem isWritable_of_ofArithmetic {x : Except ArithmeticFault Decimal} {v : Value}
    (hx : ∀ d, x = .ok d → d.InRange) (h : ofArithmetic x = .ok v) : v.IsWritable := by
  cases x with
  | error f => cases h
  | ok d =>
    cases h
    exact isWritable_number (hx d rfl)

theorem isWritable_numeral {n : Numeral} {v : Value}
    (h : ofArithmetic (n.toDecimal?.elim (.error .invalidOperation) .ok) = .ok v) :
    v.IsWritable := by
  refine isWritable_of_ofArithmetic (fun d hd => ?_) h
  cases hn : n.toDecimal? with
  | none =>
    rw [hn] at hd
    cases hd
  | some d' =>
    rw [hn] at hd
    cases hd
    exact Numeral.inRange_of_toDecimal? hn

theorem isWritable_applySign {p : Precision} {sign : Char} {v w : Value} (hv : v.IsWritable)
    (h : applySign p sign v = .ok w) : w.IsWritable := by
  rw [applySign] at h
  split at h
  · exact isWritable_of_ofArithmetic
      (fun d hd => (Decimal.neg_fits hv.inRange.isFinite hd).inRange) h
  · cases h
    exact isWritable_number hv.inRange

theorem isWritable_word {cs : List Char} {v : Value} (h : Literal.word? cs = some v) :
    v.IsWritable := by
  simp only [Literal.word?] at h
  split at h
  · cases h
    exact ⟨rfl, Decimal.inRange_zero⟩
  · split at h
    · cases h
      exact ⟨rfl, Decimal.inRange_zero⟩
    · split at h
      · cases h
        exact ⟨rfl, Decimal.inRange_zero⟩
      · cases h

theorem isWritable_quoted {q : Char} (isMark : Literal.isQuote q = true) {cs : List Char}
    (inside : q ∉ cs) : (Value.text (String.ofList cs)).IsWritable := by
  refine ⟨?_, Value.inRange_numberOfText _⟩
  simp only [Literal.isQuote, Bool.or_eq_true, decide_eq_true_eq] at isMark
  rw [Value.hasLiteral, String.toList_ofList]
  rcases isMark with rfl | rfl <;> simp [inside]

/-! ## Values at the same place -/

variable {p : Precision}

/-- Two values with literals that arithmetic takes for the same number, which fits the
precision. -/
structure Interchangeable (p : Precision) (v w : Value) : Prop where
  left : v.toNumber.Fits p
  right : w.toNumber.Fits p
  toRat_eq : v.toNumber.toRat = w.toNumber.toRat
  left_hasLiteral : v.hasLiteral = true
  right_hasLiteral : w.hasLiteral = true

namespace Interchangeable

variable {v v' w w' : Value}

theorem same (h : Interchangeable p v w) : Decimal.Same v.toNumber w.toNumber :=
  ⟨h.left.isFinite, h.right.isFinite, h.toRat_eq⟩

/-- Both values may be written in another way. -/
theorem of_close (hv : Close p v v') (h : Interchangeable p v' w') (hw : Close p w w') :
    Interchangeable p v w where
  left := hv.left
  right := hw.left
  toRat_eq := hv.same.toRat_eq.trans (h.toRat_eq.trans hw.same.toRat_eq.symm)
  left_hasLiteral := hv.hasLiteral.trans h.left_hasLiteral
  right_hasLiteral := hw.hasLiteral.trans h.right_hasLiteral

theorem of_agree {x x' y y' : Outcome Value} (hx : Agree Eq (Close p) x x')
    (h : Agree Eq (Interchangeable p) x' y') (hy : Agree Eq (Close p) y y') :
    Agree Eq (Interchangeable p) x y := by
  cases hx with
  | error hfg =>
    cases h with
    | error hgg' =>
      cases hy with
      | error hff' => exact .error (hfg.trans (hgg'.trans hff'.symm))
  | ok hv =>
    cases h with
    | ok hvw =>
      cases hy with
      | ok hw => exact .ok (.of_close hv hvw hw)

/-- Numbers have literals, so that those that are the same are interchangeable. -/
theorem of_numbers {x y : Outcome Value} (h : Agree Eq (Close p) x y)
    (hx : ∀ v, x = .ok v → ∃ n, v = .number n) : Agree Eq (Interchangeable p) x y := by
  cases h with
  | error hfg => exact .error hfg
  | ok hvw =>
    obtain ⟨n, rfl⟩ := hx _ rfl
    exact .ok ⟨hvw.left, hvw.right, hvw.same.toRat_eq, rfl, hvw.hasLiteral.symm⟩

theorem signedOutcome (negative : Bool) {x y : Outcome Value}
    (h : Agree Eq (Interchangeable p) x y) :
    Agree Eq (Interchangeable p) (signedOutcome p negative x) (signedOutcome p negative y) := by
  cases h with
  | error hfg => exact .error hfg
  | @ok v w hvw =>
    cases negative with
    | false => exact .ok ⟨hvw.left, hvw.right, hvw.toRat_eq, rfl, rfl⟩
    | true =>
      have hsame := hvw.same
      exact of_numbers (ofArithmetic_congr (Decimal.neg_congr p hsame)
        (fun _ => Decimal.neg_fits hsame.left) fun _ => Decimal.neg_fits hsame.right)
        fun _ => isNumber_of_ofArithmetic

end Interchangeable

/-- Values that two evaluations may have at the same place: a value that both write alike, or two
interchangeable ones. -/
inductive Counterpart (p : Precision) : Value → Value → Prop
  | same {v : Value} (writable : v.IsWritable) : Counterpart p v v
  | interchangeable {v w : Value} (h : Interchangeable p v w) : Counterpart p v w

theorem Counterpart.toNumber {v w : Value} (h : Counterpart p v w) :
    Decimal.Same v.toNumber w.toNumber := by
  cases h with
  | same hv => exact .refl hv.inRange.isFinite
  | interchangeable h => exact h.same

/-- An operation between values at the same places. -/
theorem Counterpart.apply (op : Operation) {v v' w w' : Value} (hv : Counterpart p v v')
    (hw : Counterpart p w w') : Agree Eq (Counterpart p) (op.apply p v w) (op.apply p v' w') := by
  have hagree : Agree Eq (Interchangeable p) (op.apply p v w) (op.apply p v' w') :=
    Interchangeable.of_numbers (op.apply_same hv.toNumber hw.toNumber)
      fun _ => Operation.isNumber_of_apply
  exact hagree.mono (fun _ _ => id) fun _ _ => .interchangeable

/-! ## Operands at the same place -/

/-- A word whose value does not depend on what names stand for. -/
def Leaf.IsFixed (l : Leaf) : Prop :=
  ∃ x : Outcome Value, (∀ names, l.value names = x) ∧ ∀ v, x = .ok v → v.IsWritable

/-- An operand whose words do not depend on what names stand for. -/
def Operand.IsFixed (o : Operand) : Prop := ∀ l ∈ o.leaves, l.IsFixed

/-- The value of a fixed operand does not depend on what names stand for. -/
theorem Operand.evaluateFlat_fixed (p : Precision) : (o : Operand) → o.IsFlat → o.IsFixed →
    ∃ x : Outcome Value, (∀ names, evaluateFlat p names o.text = x) ∧
      ∀ v, x = .ok v → v.IsWritable
  | .leaf l, hflat, hfixed => by
    obtain ⟨hparen, hmain⟩ := Operand.whole hflat
    obtain ⟨x, hx, hwritable⟩ := hfixed l (List.mem_singleton_self l)
    exact ⟨x, fun names => (evaluateFlat_leaf l hparen hmain).trans (hx names), hwritable⟩
  | .signed negative gap o, hflat, hfixed => by
    obtain ⟨hparen, hmain⟩ := Operand.whole hflat
    rcases evaluateFlat_sign negative gap o hparen hmain with ⟨-, _, _, n, -, -, -, hread⟩ | hsign
    · exact ⟨_, hread p, fun v hv => isWritable_numeral hv⟩
    · obtain ⟨x, hx, hwritable⟩ := Operand.evaluateFlat_fixed p o hflat hfixed
      refine ⟨x.bind (applySign p (signSymbol negative)), fun names => by rw [hsign, hx],
        fun v hv => ?_⟩
      cases x with
      | error f => cases hv
      | ok w => exact isWritable_applySign (hwritable w rfl) hv

variable {names₁ names₂ : Names}

/-- Flat operands that two texts may have at the same place: one operand without names, or two
operands that fit and have interchangeable values. -/
inductive Operand.Counterpart (p : Precision) (names₁ names₂ : Names) : Operand → Operand → Prop
  | fixed {o : Operand} (flat : o.IsFlat) (isFixed : o.IsFixed) :
    Operand.Counterpart p names₁ names₂ o o
  | fitted {o o' : Operand} (flat : o.IsFlat) (flat' : o'.IsFlat) (fits : o.Fits p)
    (fits' : o'.Fits p)
    (values : Agree Eq (Interchangeable p) (o.value p names₁) (o'.value p names₂)) :
    Operand.Counterpart p names₁ names₂ o o'

namespace Operand.Counterpart

variable {o o' : Operand}

theorem flat (h : Operand.Counterpart p names₁ names₂ o o') : o.IsFlat ∧ o'.IsFlat := by
  cases h with
  | fixed flat => exact ⟨flat, flat⟩
  | fitted flat flat' => exact ⟨flat, flat'⟩

theorem signed (h : Operand.Counterpart p names₁ names₂ o o') (negative : Bool) (gap : Blanks) :
    Operand.Counterpart p names₁ names₂ (.signed negative gap o) (.signed negative gap o') := by
  cases h with
  | fixed flat isFixed => exact .fixed flat isFixed
  | fitted flat flat' fits fits' values =>
    exact .fitted flat flat' fits fits' (Interchangeable.signedOutcome negative values)

/-- The evaluations of operands at the same place. -/
theorem evaluateFlat (h : Operand.Counterpart p names₁ names₂ o o') (h₁ : NamesFit p names₁)
    (h₂ : NamesFit p names₂) : Agree Eq (Expression.Counterpart p)
      (evaluateFlat p names₁ o.text) (evaluateFlat p names₂ o'.text) := by
  cases h with
  | fixed flat isFixed =>
    obtain ⟨x, hx, hwritable⟩ := Operand.evaluateFlat_fixed p o flat isFixed
    rw [hx, hx]
    cases x with
    | error f => exact .error rfl
    | ok v => exact .ok (.same (hwritable v rfl))
  | fitted flat flat' fits fits' values =>
    have hleft := evaluateFlat_formula h₁ (.single o) (Formula.isFlat_single flat) fits
    have hright := evaluateFlat_formula h₂ (.single o') (Formula.isFlat_single flat') fits'
    rw [Formula.value_single] at hleft hright
    exact (Interchangeable.of_agree hleft values hright).mono (fun _ _ => id)
      fun _ _ => .interchangeable

end Operand.Counterpart

/-- **The evaluations of two flat texts whose operands are counterparts.** -/
theorem evaluateFlat_counterpart (h₁ : NamesFit p names₁) (h₂ : NamesFit p names₂)
    {s s' : Formula} (h : Sequence.Related (Operand.Counterpart p names₁ names₂) s s') :
    Agree Eq (Counterpart p) (evaluateFlat p names₁ (Formula.text s))
      (evaluateFlat p names₂ (Formula.text s')) :=
  evaluateFlat_related (fun _ _ ho => ho.flat) (fun _ _ ho => ho.evaluateFlat h₁ h₂)
    (fun op _ _ _ _ => Counterpart.apply op) h

/-! ## Words at the same place -/

/-- Two readings of names in which the same names stand for interchangeable values. -/
def NamesInterchangeable (p : Precision) (names₁ names₂ : Names) : Prop :=
  ∀ name, Agree Eq (Option.Rel (Interchangeable p)) (names₁ name) (names₂ name)

namespace NamesInterchangeable

variable (h : NamesInterchangeable p names₁ names₂)

include h

theorem left_fit : NamesFit p names₁ := by
  intro name v hv
  have hname := h name
  rw [hv] at hname
  generalize names₂ name = y at hname
  cases hname with
  | ok hrel =>
    cases hrel with
    | some hvw => exact hvw.left

theorem right_fit : NamesFit p names₂ := by
  intro name w hw
  have hname := h name
  rw [hw] at hname
  generalize names₁ name = x at hname
  cases hname with
  | ok hrel =>
    cases hrel with
    | some hvw => exact hvw.right

/-- A name that is no literal has interchangeable values. -/
theorem leaf_value {cs : List Char} (identifier : isIdentifier cs = true)
    (hword : Literal.word? cs = none) : Agree Eq (Interchangeable p)
      ((Leaf.name cs identifier).value names₁) ((Leaf.name cs identifier).value names₂) := by
  have hname := h (String.ofList cs)
  simp only [Leaf.value, hword]
  generalize names₁ (String.ofList cs) = x at hname
  generalize names₂ (String.ofList cs) = y at hname
  cases hname with
  | error hfg => exact .error hfg
  | ok hrel =>
    cases hrel with
    | none => exact .error rfl
    | some hvw => exact .ok hvw

/-- A word is its own counterpart. -/
theorem leaf (l : Leaf) : Operand.Counterpart p names₁ names₂ (.leaf l) (.leaf l) := by
  have hfixed : l.IsFixed → Operand.Counterpart p names₁ names₂ (.leaf l) (.leaf l) :=
    fun hl => .fixed trivial fun l' hl' => List.mem_singleton.1 hl' ▸ hl
  cases l with
  | number chars reads =>
    refine hfixed ⟨(Leaf.number chars reads).value fun _ => .ok none, fun names => rfl,
      fun v hv => ?_⟩
    rw [Leaf.value] at hv
    split at hv
    · next d hd =>
      cases hv
      obtain ⟨n, -, hn⟩ := Option.bind_eq_some_iff.1 hd
      exact isWritable_number (Numeral.inRange_of_toDecimal? hn)
    · cases hv
  | quoted mark chars isMark inside =>
    refine hfixed ⟨.ok (.text (String.ofList chars)), fun names => rfl, fun v hv => ?_⟩
    cases hv
    exact isWritable_quoted isMark inside
  | name chars identifier =>
    rcases hword : Literal.word? chars with _ | v
    · have hfits : Operand.Fits p (.leaf (.name chars identifier)) :=
        fun l hl => List.mem_singleton.1 hl ▸ trivial
      exact .fitted trivial trivial hfits hfits (h.leaf_value identifier hword)
    · refine hfixed ⟨.ok v, fun names => by simp only [Leaf.value, hword], fun w hw => ?_⟩
      cases hw
      exact isWritable_word hword

end NamesInterchangeable

/-- The literals of counterparts are words that are counterparts. -/
theorem Counterpart.exists_leaves {v w : Value} (h : Counterpart p v w) (names₁ names₂ : Names) :
    ∃ l l' : Leaf, Literal.format v = .ok l.text ∧ Literal.format w = .ok l'.text ∧
      Operand.Counterpart p names₁ names₂ (.leaf l) (.leaf l') := by
  cases h with
  | same hv =>
    obtain ⟨literal, hliteral⟩ := Value.exists_format_of_hasLiteral hv.hasLiteral
    have hrange : ∀ n, v = .number n → n.InRange := by
      rintro n rfl
      exact hv.inRange
    obtain ⟨l, u, rfl, hvalue, halike, hu⟩ := exists_leaf_of_format hliteral hrange
    have hwritable : u.IsWritable := by
      rcases halike with rfl | ⟨x, y, rfl, rfl, -⟩
      · exact hv
      · exact isWritable_number (hu x rfl)
    refine ⟨l, l, hliteral, hliteral, .fixed trivial fun l' hl' => ?_⟩
    rw [List.mem_singleton.1 hl']
    refine ⟨.ok u, hvalue, fun u' hu' => ?_⟩
    cases hu'
    exact hwritable
  | interchangeable hvw =>
    obtain ⟨literal, hliteral⟩ := Value.exists_format_of_hasLiteral hvw.left_hasLiteral
    obtain ⟨literal', hliteral'⟩ := Value.exists_format_of_hasLiteral hvw.right_hasLiteral
    obtain ⟨l, rfl, hfits, hl⟩ := exists_leaf_of_fits names₁ hliteral hvw.left
    obtain ⟨l', rfl, hfits', hl'⟩ := exists_leaf_of_fits names₂ hliteral' hvw.right
    refine ⟨l, l', hliteral, hliteral', .fitted trivial trivial ?_ ?_ ?_⟩
    · exact fun k hk => List.mem_singleton.1 hk ▸ hfits
    · exact fun k hk => List.mem_singleton.1 hk ▸ hfits'
    · exact Interchangeable.of_agree hl (.ok hvw) hl'

/-! ## Groups in two texts -/

/-- Flat formulas that two texts may have in the place of a formula. -/
structure Formula.Counterparts (p : Precision) (names₁ names₂ : Names) (s y z : Formula) :
    Prop where
  related : Sequence.Related (Operand.Counterpart p names₁ names₂) y z
  left_size : y.size = s.size
  right_size : z.size = s.size

namespace Formula.Counterparts

variable {s t y z u w : Formula}

theorem flat (h : Formula.Counterparts p names₁ names₂ s y z) :
    Formula.IsFlat y ∧ Formula.IsFlat z :=
  Formula.isFlat_of_related (fun _ _ ho => ho.flat) h.related

theorem link {o o' : Operand} (head : Operand) (gap : Blanks) (op : Operation) (gap' : Blanks)
    (ho : Operand.Counterpart p names₁ names₂ o o')
    (h : Formula.Counterparts p names₁ names₂ s y z) :
    Formula.Counterparts p names₁ names₂ (.link head gap op gap' s) (.link o gap op gap' y)
      (.link o' gap op gap' z) where
  related := .link ho h.related
  left_size := by rw [Sequence.size, h.left_size, Sequence.size]
  right_size := by rw [Sequence.size, h.right_size, Sequence.size]

end Formula.Counterparts

mutual

/-- **All replacements in an operand of two texts.** -/
theorem Operand.replace (hnames : NamesInterchangeable p names₁ names₂) : (o : Operand) →
    {before after₁ after₂ : List Char} → quoteAfter none before = none → '(' ∉ mask after₁ →
    '(' ∉ mask after₂ →
      Rewritten p names₁ names₂ Eq Operand.text (Operand.Counterpart p names₁ names₂) before after₁
        before after₂ o o
  | .leaf l, _, _, _, _, _, _ => .done (.leaf l) (.leaf l) (hnames.leaf l) rfl rfl
  | .signed negative gap o, _, _, _, hbefore, hafter₁, hafter₂ =>
    have ho := Operand.replace hnames o
      (quoteAfter_append_closed hbefore (closed_sign negative gap)) hafter₁ hafter₂
    ho.signed negative gap fun _ _ hyz => hyz.signed negative gap
  | .group front inside back, _, _, _, hbefore, hafter₁, hafter₂ =>
    have hinside := Formula.replace hnames inside
      (quoteAfter_append_closed hbefore (closed_opening front)) (not_mem_closing back hafter₁)
      (not_mem_closing back hafter₂)
    hinside.group front back hbefore hbefore hafter₁ hafter₂ (fun _ => rfl)
      (fun _ _ hyz => hyz.flat)
      (fun _ _ hyz => evaluateFlat_counterpart hnames.left_fit hnames.right_fit hyz.related)
      fun _ _ hvw =>
        have ⟨l, l', hl, hl', hcounterpart⟩ := hvw.exists_leaves names₁ names₂
        .inl ⟨.leaf l, .leaf l', hl, hl', hcounterpart⟩

/-- **All replacements in a formula of two texts.**  What stands in front is still the same in
both, what stands behind differs already. -/
theorem Formula.replace (hnames : NamesInterchangeable p names₁ names₂) : (s : Sequence Operand) →
    {before after₁ after₂ : List Char} → quoteAfter none before = none → '(' ∉ mask after₁ →
    '(' ∉ mask after₂ →
      Rewritten p names₁ names₂ Eq Formula.text (Formula.Counterparts p names₁ names₂ s) before
        after₁ before after₂ s s
  | .single o, _, _, _, hbefore, hafter₁, hafter₂ =>
    (Operand.replace hnames o hbefore hafter₁ hafter₂).single fun _ _ hyz =>
      ⟨.single hyz, rfl, rfl⟩
  | .link o gap op gap' rest, _, _, _, hbefore, hafter₁, hafter₂ =>
    have hmiddle := quoteAfter_append_closed o.closed (shows_operation gap op gap').closed
    have hrest := Formula.replace hnames rest (quoteAfter_append_closed hbefore hmiddle) hafter₁
      hafter₂
    hrest.link gap op gap' hafter₁ hafter₂ (Operand.replace hnames o hbefore)
      (fun _ _ hyz => hyz.flat) fun _ _ _ _ ho hyz => hyz.link o gap op gap' ho

end

/-! ## Expressions -/

/-- An operation gives a number. -/
theorem isNumber_of_size {names : Names} {s : Formula} (hs : Formula.IsFlat s) (hsize : 1 < s.size)
    {v : Value} (h : evaluateFlat p names (Formula.text s) = .ok v) : ∃ x, v = .number x := by
  refine (isNumber_of_evaluateFlat hs h).resolve_right ?_
  rintro ⟨l, rfl, -⟩
  exact absurd hsize (Nat.lt_irrefl 1)

/-- Counterparts of a formula with an operation have the same number as their value. -/
theorem Formula.Counterparts.agree_numbers (hnames : NamesInterchangeable p names₁ names₂)
    {s y z : Formula} (h : Formula.Counterparts p names₁ names₂ s y z) (hsize : 1 < s.size) :
    Agree Eq (fun v w => ∃ x y, v = .number x ∧ w = .number y ∧ Decimal.Same x y)
      (evaluateFlat p names₁ (Formula.text y)) (evaluateFlat p names₂ (Formula.text z)) := by
  obtain ⟨hy, hz⟩ := h.flat
  have hleft : ∀ v, evaluateFlat p names₁ (Formula.text y) = .ok v → ∃ m, v = .number m :=
    fun v => isNumber_of_size hy (h.left_size ▸ hsize)
  have hright : ∀ v, evaluateFlat p names₂ (Formula.text z) = .ok v → ∃ n, v = .number n :=
    fun v => isNumber_of_size hz (h.right_size ▸ hsize)
  have hagree := evaluateFlat_counterpart hnames.left_fit hnames.right_fit h.related
  generalize evaluateFlat p names₁ (Formula.text y) = x₁ at hagree hleft
  generalize evaluateFlat p names₂ (Formula.text z) = x₂ at hagree hright
  cases hagree with
  | error hfg => exact .error hfg
  | @ok v w hvw =>
    obtain ⟨m, rfl⟩ := hleft v rfl
    obtain ⟨n, rfl⟩ := hright w rfl
    exact .ok ⟨m, n, rfl, rfl, hvw.toNumber⟩

/-- **Bound data are never read as part of the text.**  Let the same names stand for interchangeable
values in two contexts, and take the text of a formula with an operation outside all groups.  Its
two evaluations fail with the same fault, or compute the same number; and neither binds anything. -/
theorem evaluateExpression_interchangeable {env : Environment} (henv : env.precision = .ok p)
    {context₁ context₂ : Context}
    (hnames : NamesInterchangeable p context₁.values context₂.values) (s : Formula)
    (hsize : 1 < s.size) (front back : Blanks) :
    Agree Eq
      (fun r₁ r₂ => ∃ x y, r₁ = (.number x, context₁) ∧ r₂ = (.number y, context₂) ∧
        Decimal.Same x y)
      (evaluateExpression env context₁
        (String.ofList (front.chars ++ Formula.text s ++ back.chars)))
      (evaluateExpression env context₂
        (String.ofList (front.chars ++ Formula.text s ++ back.chars))) := by
  have hrewritten : Rewritten p context₁.values context₂.values Eq Formula.text
      (Formula.Counterparts p context₁.values context₂.values s) [] [] [] [] s s :=
    Formula.replace hnames s rfl List.not_mem_nil List.not_mem_nil
  have hagree := hrewritten.agree (fun _ => rfl) (fun _ _ hyz => hyz.flat)
    fun _ _ hyz => Formula.Counterparts.agree_numbers hnames hyz hsize
  rw [evaluateExpression_text henv, evaluateExpression_text henv]
  generalize evaluateArithmetic p context₁.values (Formula.text s) = x₁ at hagree ⊢
  generalize evaluateArithmetic p context₂.values (Formula.text s) = x₂ at hagree ⊢
  cases hagree with
  | error hfg => exact .error hfg
  | ok hvw =>
    obtain ⟨x, y, rfl, rfl, hsame⟩ := hvw
    exact .ok ⟨x, y, rfl, rfl, hsame⟩

/-- The formula `8 - (x) * (y - 1)`. -/
def inertFormula : Formula :=
  .link (.leaf (.number ['8'] (Eq.refl true))) .space .sub .space <|
    .link (.group .none (.single (.leaf (.name ['x'] (Eq.refl true)))) .none) .space .mul .space <|
      .single (.group .none (.link (.leaf (.name ['y'] (Eq.refl true))) .space .sub .space <|
        .single (.leaf (.number ['1'] (Eq.refl true)))) .none)

/-- Facts that bind texts with blanks, an operator and an open parenthesis. -/
def hostileFacts : Context := .facts ⟨[("x", .text " 5 "), ("y", .text "1 + (2")]⟩

/-- Facts that bind values of the same numbers. -/
def harmlessFacts : Context := .facts ⟨[("x", .int 5), ("y", .null)]⟩

theorem namesInterchangeable_hostileFacts (p : Precision) :
    NamesInterchangeable p hostileFacts.values harmlessFacts.values := by
  have hfive : Interchangeable p (.text " 5 ") (.number (.finite false 5 0)) := by
    have hnumber : (Value.text " 5 ").toNumber = .finite false 5 0 := by decide +kernel
    have hfits := fits_digit (c := 5) (by decide) p
    exact ⟨hnumber ▸ hfits, hfits, by rw [hnumber]; rfl, by decide +kernel, rfl⟩
  have hzero : Interchangeable p (.text "1 + (2") .null := by
    have hnumber : (Value.text "1 + (2").toNumber = .zero := by decide +kernel
    exact ⟨hnumber ▸ fits_zero p, fits_zero p, by rw [hnumber]; rfl, by decide +kernel, rfl⟩
  intro name
  simp only [hostileFacts, harmlessFacts, Context.values, Context.lookup, Facts.get?, List.lookup]
  cases name == "x" with
  | true => exact .ok (.some hfive)
  | false =>
    cases name == "y" with
    | true => exact .ok (.some hzero)
    | false => exact .ok .none

/-- The text between the parentheses is put there in quotes, and read as the number zero. -/
theorem evaluateExpression_interchangeableSample :
    ∃ m n, evaluateExpression [] hostileFacts "8 - (x) * (y - 1)" = .ok (.number m, hostileFacts) ∧
      evaluateExpression [] harmlessFacts "8 - (x) * (y - 1)" = .ok (.number n, harmlessFacts) ∧
      Decimal.Same m n := by
  have henv : Environment.precision [] = .ok ⟨28, by decide, by decide⟩ := rfl
  have hvalue : (evaluateExpression [] hostileFacts "8 - (x) * (y - 1)").map
      (fun r => r.1.toNumber) = .ok (.finite false 13 0) := by
    decide +kernel
  have hagree := evaluateExpression_interchangeable henv (namesInterchangeable_hostileFacts _)
    inertFormula (by decide) .none .none
  change Agree Eq _ (evaluateExpression [] hostileFacts "8 - (x) * (y - 1)")
    (evaluateExpression [] harmlessFacts "8 - (x) * (y - 1)") at hagree
  generalize evaluateExpression [] hostileFacts "8 - (x) * (y - 1)" = r₁ at hagree hvalue ⊢
  generalize evaluateExpression [] harmlessFacts "8 - (x) * (y - 1)" = r₂ at hagree ⊢
  cases hagree with
  | error hfg => cases hvalue
  | ok h =>
    obtain ⟨m, n, rfl, rfl, hsame⟩ := h
    exact ⟨m, n, rfl, rfl, hsame⟩

end Expression

end BusinessRules

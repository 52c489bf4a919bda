import BusinessRules.Proofs.Expression.Inertness

/-!
# Names in parentheses

To put a name in parentheses should change nothing.  But the name is looked up, while the
parentheses are replaced by the literal of what it stands for, which is read again between its
neighbours.  So two texts are evaluated in different ways: one has a name where the other one has a
word with its value.

The literal of a number has all of its digits, and no operation sees the difference between two
decimals of one number.  A sign is an exception.  A minus in front of a name negates, and negation
rounds; a minus directly in front of a numeral is read as part of it, and nothing is rounded.  The
other exception are the numbers that have no literal, since what is written for them is read as a
name.  Apart from these, the two texts have the same outcome.

## Main definitions

* `Twin`: values that the two evaluations may have at the same place
* `Operand.Enclosed`, `Formula.Enclosed`: trees with occurrences of a name in parentheses

## Main statements

* `Twin.apply`: operations on twins have twins as results, whatever the numbers are
* `Operand.enclose`, `Formula.enclose`: all replacements in the texts of two such trees
* `evaluateExpression_enclosed`: the evaluations of the two texts
-/

namespace BusinessRules

namespace Decimal

/-! ## Operations on numbers that are not finite -/

variable {p : Precision} {x y y' : Decimal}

theorem isFinite_of_flip (h : x.flip.IsFinite) : x.IsFinite := by
  obtain ⟨n, c, e, h⟩ := h
  cases x with
  | finite n c e => exact isFinite_finite n c e
  | infinite n => cases h
  | undefined n s d => cases h

/-- Beside an infinite or undefined number, only the number of a finite decimal matters. -/
theorem add_of_not_finite (p : Precision) (hx : ¬ x.IsFinite) (h : Same y y') :
    x.add p y = x.add p y' ∧ y.add p x = y'.add p x := by
  obtain ⟨⟨n, c, e, rfl⟩, ⟨n', c', e', rfl⟩, -⟩ := h
  cases x with
  | finite m d k => exact absurd (isFinite_finite m d k) hx
  | infinite m => exact ⟨rfl, rfl⟩
  | undefined m s d => exact ⟨rfl, rfl⟩

theorem sub_of_not_finite (p : Precision) (hx : ¬ x.IsFinite) (h : Same y y') :
    x.sub p y = x.sub p y' ∧ y.sub p x = y'.sub p x := by
  have hflip : Same y.flip y'.flip := by
    refine ⟨isFinite_flip h.left, isFinite_flip h.right, ?_⟩
    rw [toRat_flip h.left, toRat_flip h.right, h.toRat_eq]
  exact ⟨(add_of_not_finite p hx hflip).1,
    (add_of_not_finite p (fun hfinite => hx (isFinite_of_flip hfinite)) h).2⟩

theorem mul_of_not_finite (p : Precision) (hx : ¬ x.IsFinite) (h : Same y y') :
    x.mul p y = x.mul p y' ∧ y.mul p x = y'.mul p x := by
  obtain ⟨⟨n, c, e, rfl⟩, ⟨n', c', e', rfl⟩, hrat⟩ := h
  cases x with
  | finite m d k => exact absurd (isFinite_finite m d k) hx
  | infinite m =>
    -- The sign of the product is one of the number, and zero times infinity has no product.
    constructor
    · refine congr_of_toRat_eq (fun n c e => (infinite m).mul p (finite n c e)) ?_ ?_ hrat
      · intro n e n' e'
        rfl
      · intro n c e k hc
        have hc' : c * 10 ^ k ≠ 0 := Nat.mul_ne_zero hc (by positivity)
        simp only [mul, propagate₂?, if_neg hc, if_neg hc']
    · refine congr_of_toRat_eq (fun n c e => (finite n c e).mul p (infinite m)) ?_ ?_ hrat
      · intro n e n' e'
        rfl
      · intro n c e k hc
        have hc' : c * 10 ^ k ≠ 0 := Nat.mul_ne_zero hc (by positivity)
        simp only [mul, propagate₂?, if_neg hc, if_neg hc']
  | undefined m s d => exact ⟨rfl, rfl⟩

/-- The sign of an infinite quotient is that of the divisor, which is not zero. -/
theorem div_of_not_finite (p : Precision) (hx : ¬ x.IsFinite) (h : Same y y')
    (hy : y.equalsZero = .ok false) : x.div p y = x.div p y' := by
  obtain ⟨⟨n, c, e, rfl⟩, ⟨n', c', e', rfl⟩, hrat⟩ := h
  cases x with
  | finite m d k => exact absurd (isFinite_finite m d k) hx
  | infinite m =>
    have hc : c ≠ 0 := by simpa [equalsZero] using hy
    rcases le_total e' e with he | he
    · obtain ⟨k, rfl, -, -⟩ := eq_shift_of_toRat_eq hrat hc he
      rfl
    · have hc' : c' ≠ 0 := by
        rintro rfl
        exact hc (toRat_eq_zero_iff.1 (hrat.trans (toRat_zero ..)))
      obtain ⟨k, rfl, -, -⟩ := eq_shift_of_toRat_eq hrat.symm hc' he
      rfl
  | undefined m s d => rfl

end Decimal

namespace Expression

open Text (Blanks)

variable {p : Precision} {names : Names}

/-! ## Twins -/

/-- Values that two evaluations may have at the same place: the same value, or two decimals of one
number that are written alike or fit the precision. -/
inductive Twin (p : Precision) : Value → Value → Prop
  | refl (v : Value) : Twin p v v
  | numbers {x y : Decimal} (same : Decimal.Same x y)
      (written : x.plain = y.plain ∨ x.Fits p ∧ y.Fits p) : Twin p (.number x) (.number y)

namespace Twin

variable {v v' w w' : Value}

theorem of_close (h : Close p v w) : Twin p v w := by
  rcases h with ⟨rfl | ⟨x, y, rfl, rfl, hxy⟩, hx, hy⟩
  · exact .refl v
  · exact .numbers hxy (.inr ⟨hx, hy⟩)

theorem agree_of_close {x y : Outcome Value} (h : Agree Eq (Close p) x y) :
    Agree Eq (Twin p) x y :=
  h.mono (fun _ _ => id) fun _ _ => of_close

theorem alike (h : Twin p v w) : Alike v w := by
  cases h with
  | refl v => exact .inl rfl
  | numbers same written => exact .inr ⟨_, _, rfl, rfl, same⟩

theorem toNumber (h : Twin p v w) :
    v.toNumber = w.toNumber ∨ Decimal.Same v.toNumber w.toNumber := by
  cases h with
  | refl v => exact .inl rfl
  | numbers same written => exact .inr same

theorem agree_refl (x : Outcome Value) : Agree Eq (Twin p) x x :=
  .refl (fun _ => rfl) .refl x

/-- An operation whose left operand is not finite. -/
theorem apply_left (op : Operation) {x y y' : Decimal} (hx : ¬ x.IsFinite)
    (h : Decimal.Same y y') :
    op.apply p (.number x) (.number y) = op.apply p (.number x) (.number y') := by
  cases op with
  | add => exact congrArg ofArithmetic (Decimal.add_of_not_finite p hx h).1
  | sub => exact congrArg ofArithmetic (Decimal.sub_of_not_finite p hx h).1
  | mul => exact congrArg ofArithmetic (Decimal.mul_of_not_finite p hx h).1
  | div =>
    simp only [Operation.apply, Value.toNumber]
    rcases hy : y.equalsZero with f | _ | _
    · rw [← Decimal.equalsZero_congr h, hy]
    · rw [← Decimal.equalsZero_congr h, hy]
      exact congrArg ofArithmetic (Decimal.div_of_not_finite p hx h hy)
    · rw [← Decimal.equalsZero_congr h, hy]

/-- An operation whose right operand is not finite.  The quotient is zero, but for its sign. -/
theorem apply_right (op : Operation) {x y y' : Decimal} (hx : ¬ x.IsFinite)
    (h : Decimal.Same y y') : Agree Eq (Twin p) (op.apply p (.number y) (.number x))
      (op.apply p (.number y') (.number x)) := by
  have hequal : ∀ {r r' : Outcome Value}, r = r' → Agree Eq (Twin p) r r' := by
    rintro r _ rfl
    exact agree_refl r
  cases op with
  | add => exact hequal (congrArg ofArithmetic (Decimal.add_of_not_finite p hx h).2)
  | sub => exact hequal (congrArg ofArithmetic (Decimal.sub_of_not_finite p hx h).2)
  | mul => exact hequal (congrArg ofArithmetic (Decimal.mul_of_not_finite p hx h).2)
  | div =>
    obtain ⟨⟨n, c, e, rfl⟩, ⟨n', c', e', rfl⟩, -⟩ := h
    cases x with
    | finite m d k => exact absurd (Decimal.isFinite_finite m d k) hx
    | infinite m =>
      have hzero : ∀ k, (Decimal.finite k 0 (Decimal.leastExponent p)).Fits p := fun k =>
        (Decimal.rounded_zero k le_rfl (Decimal.leastExponent_le_maxExponent p)).fits
      refine .ok (.numbers ⟨(hzero _).isFinite, (hzero _).isFinite, ?_⟩ (.inr ⟨hzero _, hzero _⟩))
      rw [Decimal.toRat_zero, Decimal.toRat_zero]
    | undefined m s d => exact agree_refl _

/-- **Operations on twins have twins as results**, whatever the numbers are. -/
theorem apply (op : Operation) (hv : Twin p v v') (hw : Twin p w w') :
    Agree Eq (Twin p) (op.apply p v w) (op.apply p v' w') := by
  have hnumbers : ∀ u t : Value,
      op.apply p u t = op.apply p (.number u.toNumber) (.number t.toNumber) := by
    intro u t
    cases op <;> rfl
  have hl := hv.toNumber
  have hr := hw.toNumber
  rw [hnumbers v w, hnumbers v' w']
  generalize v.toNumber = x, v'.toNumber = x' at hl
  generalize w.toNumber = y, w'.toNumber = y' at hr
  by_cases hx : x.IsFinite
  · have hxx' : Decimal.Same x x' := hl.elim (fun heq => heq ▸ .refl hx) id
    by_cases hy : y.IsFinite
    · have hyy' : Decimal.Same y y' := hr.elim (fun heq => heq ▸ .refl hy) id
      exact agree_of_close (op.apply_same hxx' hyy')
    · obtain rfl : y = y' := hr.resolve_right fun hsame => hy hsame.left
      exact apply_right op hy hxx'
  · obtain rfl : x = x' := hl.resolve_right fun hsame => hx hsame.left
    rcases hr with rfl | hyy'
    · exact agree_refl _
    · rw [apply_left op hx hyy']
      exact agree_refl _

/-- A sign in front of twins. -/
theorem applySign (sign : Char) {x x' : Outcome Value} (h : Agree Eq (Twin p) x x') :
    Agree Eq (Twin p) (x.bind (applySign p sign)) (x'.bind (applySign p sign)) := by
  cases h with
  | error hfg => exact .error hfg
  | ok hvw =>
    cases hvw with
    | refl v => exact agree_refl _
    | numbers same written =>
      by_cases hsign : sign = '-'
      · simp only [Except.bind, Expression.applySign, if_pos hsign]
        exact agree_of_close (ofArithmetic_congr (Decimal.neg_congr p same)
          (fun _ => Decimal.neg_fits same.left) fun _ => Decimal.neg_fits same.right)
      · simp only [Except.bind, Expression.applySign, if_neg hsign]
        exact .ok (.numbers same written)

end Twin

/-! ## Operands at the same place -/

/-- A sign is applied to what follows it, unless that is a numeral. -/
theorem evaluateFlat_sign_of_ne {o : Operand} (ho : o.IsFlat)
    (hne : ∀ chars reads, o ≠ .leaf (.number chars reads)) (negative : Bool) (gap : Blanks) :
    evaluateFlat p names (Operand.signed negative gap o).text =
      (evaluateFlat p names o.text).bind (applySign p (signSymbol negative)) := by
  have hflat : (Operand.signed negative gap o).IsFlat := ho
  obtain ⟨hparen, hmain⟩ := Operand.whole hflat
  rcases evaluateFlat_sign negative gap o hparen hmain with ⟨-, chars, reads, -, ho, -⟩ | hsign
  · exact absurd ho (hne chars reads)
  · exact hsign p names

/-- A sign in front of two words that fit and have one number. -/
theorem agree_signed_of_fits {l l' : Leaf} (hl : l.Fits p) (hl' : l'.Fits p) {v v' : Value}
    (hv : l.value names = .ok v) (hv' : l'.value names = .ok v') (h : Close p v v')
    (negative : Bool) (gap : Blanks) :
    Agree Eq (Close p) (evaluateFlat p names (Operand.signed negative gap (.leaf l)).text)
      (evaluateFlat p names (Operand.signed negative gap (.leaf l')).text) := by
  have hsigned : ∀ {k : Leaf} {w : Value}, k.Fits p → k.value names = .ok w → w.toNumber.Fits p →
      Agree Eq (Close p) (evaluateFlat p names (Operand.signed negative gap (.leaf k)).text)
        (signedOutcome p negative (.ok w)) := by
    intro k w hk hw hfits
    have hflat : (Operand.signed negative gap (.leaf k)).IsFlat := trivial
    obtain ⟨hparen, hmain⟩ := Operand.whole hflat
    have hself : Agree Eq (Close p) (evaluateFlat p names k.text) (k.value names) := by
      rw [evaluateFlat_word, hw]
      exact .ok (.refl hfits)
    have hvalue := evaluateFlat_signed negative gap (.leaf k)
      (fun _ hmem => List.mem_singleton.1 hmem ▸ hk) hparen hmain hself
    rwa [Operand.value, hw] at hvalue
  have hmiddle : Agree Eq (Close p) (signedOutcome p negative (.ok v))
      (signedOutcome p negative (.ok v')) := signedOutcome_congr negative (.ok h)
  have hright := hsigned hl' hv' h.right
  refine agree_close_trans (hsigned hl hv h.left) (agree_close_trans hmiddle ?_)
  exact hright.symm (fun _ _ => Eq.symm) fun _ _ => Close.symm

/-- Flat operands that two texts may have at the same place. -/
structure Operand.Matched (p : Precision) (names : Names) (o o' : Operand) : Prop where
  left_flat : o.IsFlat
  right_flat : o'.IsFlat
  values : Agree Eq (Twin p) (evaluateFlat p names o.text) (evaluateFlat p names o'.text)

theorem Formula.isFlat_of_matched {s s' : Formula}
    (h : Sequence.Related (Operand.Matched p names) s s') : Formula.IsFlat s ∧ Formula.IsFlat s' :=
  Formula.isFlat_of_related (fun _ _ ho => ⟨ho.left_flat, ho.right_flat⟩) h

/-- Flat texts with operands that match have twins as values. -/
theorem evaluateFlat_matched {s s' : Formula}
    (h : Sequence.Related (Operand.Matched p names) s s') :
    Agree Eq (Twin p) (evaluateFlat p names (Formula.text s))
      (evaluateFlat p names (Formula.text s')) :=
  evaluateFlat_related (fun _ _ ho => ⟨ho.left_flat, ho.right_flat⟩) (fun _ _ ho => ho.values)
    (fun op _ _ _ _ => Twin.apply op) h

/-- Flat operands that two texts may have at the same place, behind some signs as well. -/
structure Operand.Signable (p : Precision) (names : Names) (Allowed : Bool → Blanks → Prop)
    (o o' : Operand) : Prop extends Operand.Matched p names o o' where
  signed : ∀ negative gap, Allowed negative gap →
    Agree Eq (Twin p) (evaluateFlat p names (Operand.signed negative gap o).text)
      (evaluateFlat p names (Operand.signed negative gap o').text)

namespace Operand.Signable

variable {Allowed Allowed' : Bool → Blanks → Prop} {o o' : Operand}

theorem refl (ho : o.IsFlat) : Operand.Signable p names Allowed o o where
  left_flat := ho
  right_flat := ho
  values := Twin.agree_refl _
  signed _ _ _ := Twin.agree_refl _

/-- Once a sign is in front of it, any other sign may be as well. -/
theorem behind (h : Operand.Signable p names Allowed o o') {negative : Bool} {gap : Blanks}
    (hallowed : Allowed negative gap) :
    Operand.Signable p names Allowed' (.signed negative gap o) (.signed negative gap o') where
  left_flat := h.left_flat
  right_flat := h.right_flat
  values := h.signed negative gap hallowed
  signed negative' gap' _ := by
    have hleft : (Operand.signed negative gap o).IsFlat := h.left_flat
    have hright : (Operand.signed negative gap o').IsFlat := h.right_flat
    rw [evaluateFlat_sign_of_ne hleft (fun _ _ => Operand.noConfusion),
      evaluateFlat_sign_of_ne hright (fun _ _ => Operand.noConfusion)]
    exact Twin.applySign _ (h.signed negative gap hallowed)

/-- Words that fit and have one number. -/
theorem of_fits {l l' : Leaf} (hl : l.Fits p) (hl' : l'.Fits p) {v v' : Value}
    (hv : l.value names = .ok v) (hv' : l'.value names = .ok v') (h : Close p v v') :
    Operand.Signable p names Allowed (.leaf l) (.leaf l') where
  left_flat := trivial
  right_flat := trivial
  values := by
    change Agree Eq (Twin p) (evaluateFlat p names l.text) (evaluateFlat p names l'.text)
    rw [evaluateFlat_word, evaluateFlat_word, hv, hv']
    exact .ok (.of_close h)
  signed negative gap _ := Twin.agree_of_close (agree_signed_of_fits hl hl' hv hv' h negative gap)

end Operand.Signable

/-! ## Literals at the same place -/

theorem isNameChar_of_isDigit {c : Char} (h : c.isDigit = true) : isNameChar c = true := by
  simp [isNameChar, Char.isAlphanum, h]

theorem isIdentifier_undefinedText (signaling : Bool) (payload : Nat) :
    isIdentifier (Decimal.undefinedText signaling payload) = true := by
  have hpayload : (if payload = 0 then [] else Decimal.digits payload).all isNameChar = true := by
    split
    · rfl
    · exact List.all_eq_true.2 fun c hc => isNameChar_of_isDigit (Decimal.digits_isDigit hc)
  rw [Decimal.undefinedText]
  generalize (if payload = 0 then [] else Decimal.digits payload) = rest at hpayload
  cases signaling with
  | false =>
    change (isNameStart 'N' && (['a', 'N'] ++ rest).all isNameChar) = true
    rw [List.all_append, hpayload]
    decide
  | true =>
    change (isNameStart 's' && (['N', 'a', 'N'] ++ rest).all isNameChar) = true
    rw [List.all_append, hpayload]
    decide

/-- Whatever has a literal is written as the text of an operand.  Of a number that is not finite,
that is a name, or a minus in front of it. -/
theorem exists_operand_of_format {v : Value} {literal : List Char}
    (h : Literal.format v = .ok literal) : ∃ o : Operand, o.IsFlat ∧ o.text = literal := by
  have hsigned : ∀ (negative : Bool) {cs : List Char}, isIdentifier cs = true →
      ∃ o : Operand, o.IsFlat ∧ o.text = Decimal.signed negative cs := by
    intro negative cs hcs
    cases negative with
    | false => exact ⟨.leaf (.name cs hcs), trivial, rfl⟩
    | true => exact ⟨.signed true .none (.leaf (.name cs hcs)), trivial, rfl⟩
  have hleaf : (∀ n, v = .number n → n.InRange) → ∃ o : Operand, o.IsFlat ∧ o.text = literal := by
    intro hrange
    obtain ⟨l, w, hl, -⟩ := exists_leaf_of_format h hrange
    exact ⟨.leaf l, trivial, hl⟩
  cases v with
  | number n =>
    obtain rfl : n.plain = literal := Except.ok.inj h
    cases n with
    | finite negative c e =>
      have hreads : (Numeral.read? (Decimal.finite negative c e).plain).isSome = true := by
        rw [Decimal.read?_plain]
        rfl
      exact ⟨.leaf (.number _ hreads), trivial, rfl⟩
    | infinite negative => exact hsigned negative (by decide)
    | undefined negative signaling payload =>
      exact hsigned negative (isIdentifier_undefinedText signaling payload)
  | null => exact hleaf fun n hn => by cases hn
  | bool b => exact hleaf fun n hn => by cases hn
  | text s => exact hleaf fun n hn => by cases hn
  | list items => cases h

/-- The literals of twins stand for twins, behind any sign; or neither has one. -/
theorem Twin.literals {Allowed : Bool → Blanks → Prop} {v w : Value} (h : Twin p v w) :
    (∃ y z : Operand, Literal.format v = .ok y.text ∧ Literal.format w = .ok z.text ∧
        Operand.Signable p names Allowed y z) ∨
      ∃ f g, Literal.format v = .error f ∧ Literal.format w = .error g ∧
        ∀ t u, SameFault (.ungroupable t) (.ungroupable u) := by
  have hself : ∀ {u : Value} {literal : List Char}, Literal.format u = .ok literal →
      ∃ y : Operand, literal = y.text ∧ Operand.Signable p names Allowed y y := by
    intro u literal hu
    obtain ⟨y, hflat, hy⟩ := exists_operand_of_format hu
    exact ⟨y, hy.symm, .refl hflat⟩
  cases h with
  | refl v =>
    rcases hv : Literal.format v with f | literal
    · exact .inr ⟨f, f, rfl, rfl, fun t u => .inr ⟨t, u, rfl, rfl⟩⟩
    · obtain ⟨y, rfl, hy⟩ := hself hv
      exact .inl ⟨y, y, rfl, rfl, hy⟩
  | @numbers x y same written =>
    have hx : Literal.format (.number x) = .ok x.plain := rfl
    have hy : Literal.format (.number y) = .ok y.plain := rfl
    rcases written with hplain | ⟨hxfits, hyfits⟩
    · obtain ⟨z, hz, hsignable⟩ := hself hx
      exact .inl ⟨z, z, by rw [hx, hz], by rw [hy, ← hplain, hz], hsignable⟩
    · obtain ⟨l, x', hl, hvalue, hsame, hrange, -⟩ := exists_leaf_of_number hxfits.inRange
      obtain ⟨l', y', hl', hvalue', hsame', hrange', -⟩ := exists_leaf_of_number hyfits.inRange
      have hx' := hxfits.congr hrange hsame.toRat_eq.symm
      have hy' := hyfits.congr hrange' hsame'.toRat_eq.symm
      have hclose : Close p (.number x') (.number y') :=
        .number hx' hy' (hsame.toRat_eq.trans (same.toRat_eq.trans hsame'.toRat_eq.symm))
      refine .inl ⟨.leaf l, .leaf l', by rw [hx, ← hl]; rfl, by rw [hy, ← hl']; rfl, ?_⟩
      exact .of_fits (l.fits_of_value (hvalue names) hx') (l'.fits_of_value (hvalue' names) hy')
        (hvalue names) (hvalue' names) hclose

/-! ## A name and the literal of its value -/

/-- What has to hold where a minus sign stands directly in front of the place: a positive number
fits the precision. -/
def Negatable (p : Precision) (v : Value) : Prop :=
  ∀ c e, v = .number (.finite false c e) → (Decimal.finite false c e).Fits p

/-- The evaluation of a sign in front of the literal of a number: as one numeral, if nothing is
between them and the number is not negative, or else of the sign after the numeral. -/
theorem evaluateFlat_sign_plain {l : Leaf} {d x : Decimal} (hd : d.IsFinite) (hl : l.text = d.plain)
    (hvalue : l.value names = .ok (.number x)) (negative : Bool) (gap : Blanks) :
    (gap.chars = [] ∧ (∃ c e, d = .finite false c e) ∧ (negative = false →
        evaluateFlat p names (Operand.signed negative gap (.leaf l)).text = .ok (.number x))) ∨
      evaluateFlat p names (Operand.signed negative gap (.leaf l)).text =
        (evaluateFlat p names l.text).bind (applySign p (signSymbol negative)) := by
  obtain ⟨sign, c, e, rfl⟩ := hd
  have hflat : (Operand.signed negative gap (.leaf l)).IsFlat := trivial
  obtain ⟨hparen, hmain⟩ := Operand.whole hflat
  rcases evaluateFlat_sign negative gap (.leaf l) hparen hmain with
    ⟨hgap, chars, reads, n, ho, hn, hpositive, hread⟩ | hsign
  · cases ho
    -- The sign of the numeral is that of the number.
    obtain rfl : chars = (Decimal.finite sign c e).plain := hl
    have hnumeral := hn
    rw [Decimal.read?_plain] at hnumeral
    obtain rfl := Option.some.inj hnumeral
    obtain rfl : sign = false := hpositive
    refine .inl ⟨hgap, ⟨c, e, rfl⟩, ?_⟩
    rintro rfl
    rw [hread]
    simp only [Leaf.value, hn, Option.bind_some] at hvalue
    split at hvalue
    · next d' hd' =>
      cases hvalue
      rw [hd']
      rfl
    · cases hvalue
  · exact .inr (hsign p names)

/-- A name and the literal of its value. -/
theorem exists_leaf_signable {cs : List Char} {hcs : isIdentifier cs = true} {v : Value}
    (hvalue : (Leaf.name cs hcs).value names = .ok v) (hv : v.IsWritable) :
    ∃ l : Leaf, Literal.format v = .ok l.text ∧
      Operand.Signable p names
        (fun negative gap => negative = true → gap.chars = [] → Negatable p v)
        (.leaf (.name cs hcs)) (.leaf l) := by
  have hnameSign : ∀ negative gap,
      evaluateFlat p names (Operand.signed negative gap (.leaf (.name cs hcs))).text =
        (evaluateFlat p names (Leaf.name cs hcs).text).bind (applySign p (signSymbol negative)) :=
    evaluateFlat_sign_of_ne trivial (fun _ _ h => Leaf.noConfusion (Operand.leaf.inj h))
  by_cases hnumber : ∃ d, v = .number d
  · obtain ⟨d, rfl⟩ := hnumber
    have hrange : d.InRange := hv.inRange
    obtain ⟨l, x, hl, hliteral, hsame, hx, hplain⟩ := exists_leaf_of_number hrange
    have htwin : Twin p (.number d) (.number x) := .numbers hsame.symm (.inl hplain.symm)
    refine ⟨l, congrArg Except.ok hl.symm, ?_⟩
    by_cases hfits : d.Fits p
    · have hxfits := hfits.congr hx hsame.toRat_eq.symm
      exact .of_fits (l := .name cs hcs) trivial (l.fits_of_value (hliteral names) hxfits) hvalue
        (hliteral names) (.number hfits hxfits hsame.toRat_eq.symm)
    · refine ⟨⟨trivial, trivial, ?_⟩, fun negative gap hallowed => ?_⟩
      · change Agree Eq (Twin p) (evaluateFlat p names (Leaf.name cs hcs).text)
          (evaluateFlat p names l.text)
        rw [evaluateFlat_word, evaluateFlat_word, hvalue, hliteral]
        exact .ok htwin
      · rw [hnameSign, evaluateFlat_word, hvalue]
        rcases evaluateFlat_sign_plain (p := p) hrange.isFinite hl (hliteral names) negative gap
          with ⟨hgap, ⟨c, e, rfl⟩, hread⟩ | hsign
        · cases negative with
          | false =>
            rw [hread rfl]
            exact .ok htwin
          | true => exact absurd (hallowed rfl hgap c e rfl) hfits
        · rw [hsign, evaluateFlat_word, hliteral]
          exact Twin.applySign _ (.ok htwin)
  · -- The literal of any other value is no numeral.
    have hrange : ∀ n, v = .number n → n.InRange := fun n hn => absurd ⟨n, hn⟩ hnumber
    obtain ⟨literal, hliteral⟩ := Value.exists_format_of_hasLiteral hv.hasLiteral
    obtain ⟨l, w, rfl, hword, halike, -⟩ := exists_leaf_of_format hliteral hrange
    obtain rfl : w = v := halike.resolve_right fun ⟨_, y, _, hy, _⟩ => hnumber ⟨y, hy⟩
    have hne : ∀ chars reads, Operand.leaf l ≠ .leaf (.number chars reads) := by
      rintro chars reads hl
      cases hl
      have hvalue' := hword names
      rw [Leaf.value] at hvalue'
      split at hvalue'
      · exact hnumber ⟨_, (Except.ok.inj hvalue').symm⟩
      · cases hvalue'
    have hequal : evaluateFlat p names (Leaf.name cs hcs).text = evaluateFlat p names l.text := by
      rw [evaluateFlat_word, evaluateFlat_word, hvalue, hword]
    refine ⟨l, hliteral, ⟨⟨trivial, trivial, ?_⟩, fun negative gap _ => ?_⟩⟩
    · change Agree Eq (Twin p) (evaluateFlat p names (Leaf.name cs hcs).text)
        (evaluateFlat p names l.text)
      rw [hequal]
      exact Twin.agree_refl _
    · rw [hnameSign, hequal, evaluateFlat_sign_of_ne (o := .leaf l) trivial hne]
      exact Twin.agree_refl _

/-! ## Trees with names in parentheses -/

mutual

/-- An operand with any occurrences of a name in parentheses.  Where a minus sign stands directly in
front of such an occurrence, a condition has to hold. -/
inductive Operand.Enclosed (cs : List Char) (hcs : isIdentifier cs = true) (mayNegate : Prop) :
    Operand → Operand → Prop
  | leaf (l : Leaf) : Operand.Enclosed cs hcs mayNegate (.leaf l) (.leaf l)
  | name (front back : Blanks) : Operand.Enclosed cs hcs mayNegate (.leaf (.name cs hcs))
      (.group front (.single (.leaf (.name cs hcs))) back)
  | signed (negative : Bool) (gap : Blanks) {o o' : Operand}
      (operand : Operand.Enclosed cs hcs mayNegate o o')
      (allowed : negative = true → gap.chars = [] → o = .leaf (.name cs hcs) → o' ≠ o →
        mayNegate) :
      Operand.Enclosed cs hcs mayNegate (.signed negative gap o) (.signed negative gap o')
  | group (front : Blanks) {s s' : Sequence Operand}
      (inside : Formula.Enclosed cs hcs mayNegate s s') (back : Blanks) :
      Operand.Enclosed cs hcs mayNegate (.group front s back) (.group front s' back)

/-- A formula with any occurrences of a name in parentheses. -/
inductive Formula.Enclosed (cs : List Char) (hcs : isIdentifier cs = true) (mayNegate : Prop) :
    Sequence Operand → Sequence Operand → Prop
  | single {o o' : Operand} (operand : Operand.Enclosed cs hcs mayNegate o o') :
      Formula.Enclosed cs hcs mayNegate (.single o) (.single o')
  | link {o o' : Operand} (operand : Operand.Enclosed cs hcs mayNegate o o') (before : Blanks)
      (op : Operation) (after : Blanks) {s s' : Sequence Operand}
      (rest : Formula.Enclosed cs hcs mayNegate s s') :
      Formula.Enclosed cs hcs mayNegate (.link o before op after s) (.link o' before op after s')

end

section Trees

variable {cs : List Char} {hcs : isIdentifier cs = true} {mayNegate : Prop}

mutual

/-- No occurrence need be in parentheses. -/
theorem Operand.Enclosed.refl : (o : Operand) → Operand.Enclosed cs hcs mayNegate o o
  | .leaf l => .leaf l
  | .signed negative gap o => .signed negative gap (.refl o) fun _ _ _ hne => absurd rfl hne
  | .group front inside back => .group front (.refl inside) back

theorem Formula.Enclosed.refl : (s : Sequence Operand) → Formula.Enclosed cs hcs mayNegate s s
  | .single o => .single (.refl o)
  | .link o before op after rest => .link (.refl o) before op after (.refl rest)

end

variable {v : Value}

mutual

/-- **All replacements in an operand and the operand with names in parentheses.** -/
theorem Operand.enclose (hvalue : (Leaf.name cs hcs).value names = .ok v) (hv : v.IsWritable)
    (hnegate : mayNegate → Negatable p v) : (o : Operand) → {o' : Operand} →
    Operand.Enclosed cs hcs mayNegate o o' → {before₁ after₁ before₂ after₂ : List Char} →
    quoteAfter none before₁ = none → quoteAfter none before₂ = none → '(' ∉ mask after₁ →
    '(' ∉ mask after₂ →
      Rewritten p names names SameFault Operand.text
        (Operand.Signable p names fun negative gap =>
          negative = true → gap.chars = [] → o = .leaf (.name cs hcs) → o' ≠ o → mayNegate)
        before₁ after₁ before₂ after₂ o o'
  | .leaf l, o', h, before₁, after₁, before₂, after₂, hbefore₁, hbefore₂, hafter₁, hafter₂ => by
    cases h with
    | leaf => exact .done (.leaf l) (.leaf l) (.refl trivial) rfl rfl
    | name front back =>
      obtain ⟨l, hliteral, hsignable⟩ := exists_leaf_signable hvalue hv
      refine .done (.leaf (.name cs hcs)) (.leaf l) ⟨hsignable.toMatched, ?_⟩ rfl ?_
      · intro negative gap hallowed
        exact hsignable.signed negative gap fun hneg hgap =>
          hnegate (hallowed hneg hgap rfl Operand.noConfusion)
      · have hflat : Formula.IsFlat (.single (.leaf (.name cs hcs))) :=
          Formula.isFlat_single trivial
        have hname : evaluateFlat p names (Formula.text (.single (.leaf (.name cs hcs)))) = .ok v :=
          (evaluateFlat_word (.name cs hcs)).trans hvalue
        rw [Operand.text_group_between, group_between,
          evaluateArithmetic_inside hflat front back hbefore₂ hafter₂]
        simp only [hname, hliteral]
        rfl
  | .signed negative gap o, _, .signed _ _ operand allowed, _, _, _, _, hbefore₁, hbefore₂, hafter₁,
      hafter₂ =>
    have ho := Operand.enclose hvalue hv hnegate o operand
      (quoteAfter_append_closed hbefore₁ (closed_sign negative gap))
      (quoteAfter_append_closed hbefore₂ (closed_sign negative gap)) hafter₁ hafter₂
    ho.signed negative gap fun _ _ hyz => hyz.behind allowed
  | .group front s back, _, .group _ inside _, _, _, _, _, hbefore₁, hbefore₂, hafter₁, hafter₂ =>
    have hinside := Formula.enclose hvalue hv hnegate s inside
      (quoteAfter_append_closed hbefore₁ (closed_opening front))
      (quoteAfter_append_closed hbefore₂ (closed_opening front)) (not_mem_closing back hafter₁)
      (not_mem_closing back hafter₂)
    hinside.group front back hbefore₁ hbefore₂ hafter₁ hafter₂ (fun _ => .inl rfl)
      (fun _ _ => Formula.isFlat_of_matched) (fun _ _ => evaluateFlat_matched)
      fun _ _ => Twin.literals

/-- **All replacements in a formula and the formula with names in parentheses.** -/
theorem Formula.enclose (hvalue : (Leaf.name cs hcs).value names = .ok v) (hv : v.IsWritable)
    (hnegate : mayNegate → Negatable p v) : (s : Sequence Operand) → {s' : Sequence Operand} →
    Formula.Enclosed cs hcs mayNegate s s' → {before₁ after₁ before₂ after₂ : List Char} →
    quoteAfter none before₁ = none → quoteAfter none before₂ = none → '(' ∉ mask after₁ →
    '(' ∉ mask after₂ →
      Rewritten p names names SameFault Formula.text
        (Sequence.Related (Operand.Matched p names)) before₁ after₁ before₂ after₂ s s'
  | .single o, _, .single operand, _, _, _, _, hbefore₁, hbefore₂, hafter₁, hafter₂ =>
    have ho := Operand.enclose hvalue hv hnegate o operand hbefore₁ hbefore₂ hafter₁ hafter₂
    ho.single fun _ _ hyz => .single hyz.toMatched
  | .link o gap op gap' s, _, .link operand _ _ _ rest, _, _, _, _, hbefore₁, hbefore₂, hafter₁,
      hafter₂ =>
    have hoperation := (shows_operation gap op gap').closed
    have hrest := Formula.enclose hvalue hv hnegate s rest
      (quoteAfter_append_closed hbefore₁ (quoteAfter_append_closed o.closed hoperation))
      (quoteAfter_append_closed hbefore₂ (quoteAfter_append_closed (Operand.closed _) hoperation))
      hafter₁ hafter₂
    hrest.link gap op gap' hafter₁ hafter₂
      (Operand.enclose hvalue hv hnegate o operand hbefore₁ hbefore₂)
      (fun _ _ => Formula.isFlat_of_matched) fun _ _ _ _ ho hs => .link ho.toMatched hs

end

end Trees

/-! ## Expressions -/

/-- No word stands for a number. -/
theorem ne_number_of_word {cs : List Char} {v : Value} (h : Literal.word? cs = some v)
    (n : Decimal) : v ≠ .number n := by
  rintro rfl
  rw [Literal.word?] at h
  split at h
  · cases h
  · split at h
    · cases h
    · split at h <;> cases h

/-- The value of a bound name is what it is bound to, unless it is one of the words with a value. -/
theorem exists_value_of_bound {cs : List Char} (hcs : isIdentifier cs = true) {v : Value}
    (hbound : names (String.ofList cs) = .ok (some v)) (hv : v.IsWritable) :
    ∃ w : Value, (Leaf.name cs hcs).value names = .ok w ∧ w.IsWritable ∧
      (Negatable p v → Negatable p w) := by
  rcases hword : Literal.word? cs with _ | w
  · exact ⟨v, by simp only [Leaf.value, hword, hbound], hv, id⟩
  · exact ⟨w, by simp only [Leaf.value, hword], isWritable_word hword,
      fun _ c e h => absurd h (ne_number_of_word hword _)⟩

/-- **To put a name in parentheses changes nothing**, if what it is bound to can be written.  Let
any occurrences of the name be put in parentheses in the text of a formula; only where a minus sign
stands directly in front of such an occurrence, a positive number must fit the precision.  Then both
texts fail with the same kind of fault, or have the same value up to the way a number is written,
and neither binds anything. -/
theorem evaluateExpression_enclosed {env : Environment} (henv : env.precision = .ok p)
    {context : Context} {cs : List Char} {hcs : isIdentifier cs = true} {v : Value}
    (hbound : context.values (String.ofList cs) = .ok (some v)) (hv : v.IsWritable)
    {s s' : Formula} (h : Formula.Enclosed cs hcs (Negatable p v) s s') (front back : Blanks) :
    Agree SameFault (fun r r' => Alike r.1 r'.1 ∧ r.2 = context ∧ r'.2 = context)
      (evaluateExpression env context
        (String.ofList (front.chars ++ Formula.text s ++ back.chars)))
      (evaluateExpression env context
        (String.ofList (front.chars ++ Formula.text s' ++ back.chars))) := by
  obtain ⟨w, hvalue, hw, hnegate⟩ := exists_value_of_bound (p := p) hcs hbound hv
  have hrewritten : Rewritten p context.values context.values SameFault Formula.text
      (Sequence.Related (Operand.Matched p context.values)) [] [] [] [] s s' :=
    Formula.enclose hvalue hw hnegate s h rfl rfl List.not_mem_nil List.not_mem_nil
  have hagree := hrewritten.agree (fun _ => .inl rfl) (fun _ _ => Formula.isFlat_of_matched)
    fun _ _ => evaluateFlat_matched
  rw [evaluateExpression_text henv, evaluateExpression_text henv]
  generalize evaluateArithmetic p context.values (Formula.text s) = x at hagree ⊢
  generalize evaluateArithmetic p context.values (Formula.text s') = x' at hagree ⊢
  cases hagree with
  | error hfg => exact .error hfg
  | ok hvw => exact .ok ⟨hvw.alike, rfl, rfl⟩

/-- A number of 31 digits, which no result has at the usual precision. -/
def longNumber : Decimal := .finite false 1234567890123456789012345678901 0

/-- Facts that bind the long number. -/
def longFacts : Context := .facts ⟨[("x", .decimal longNumber), ("y", .int 1)]⟩

/-- The formula `-y - x`. -/
def openFormula : Formula :=
  .link (.signed true .none (.leaf (.name ['y'] (Eq.refl true)))) .space .sub .space <|
    .single (.leaf (.name ['x'] (Eq.refl true)))

/-- The formula `-y - (x)`. -/
def closedFormula : Formula :=
  .link (.signed true .none (.leaf (.name ['y'] (Eq.refl true)))) .space .sub .space <|
    .single (.group .none (.single (.leaf (.name ['x'] (Eq.refl true)))) .none)

/-- The difference is rounded once in both texts. -/
theorem evaluateExpression_enclosedSample :
    ∃ m n, evaluateExpression [] longFacts "-y - x" = .ok (.number m, longFacts) ∧
      evaluateExpression [] longFacts "-y - (x)" = .ok (.number n, longFacts) ∧
      Decimal.Same m n := by
  have henv : Environment.precision [] = .ok ⟨28, by decide, by decide⟩ := rfl
  have hbound : longFacts.values (String.ofList ['x']) = .ok (some (.number longNumber)) := rfl
  have hwritable : (Value.number longNumber).IsWritable :=
    isWritable_number ⟨false, _, 0, rfl, by decide, by decide +kernel⟩
  have henclosed : Formula.Enclosed ['x'] (Eq.refl true)
      (Negatable ⟨28, by decide, by decide⟩ (.number longNumber)) openFormula closedFormula :=
    .link (.refl _) .space .sub .space (.single (.name .none .none))
  have hvalue : number? ((evaluateExpression [] longFacts "-y - x").map Prod.fst) =
      some (.finite true 1234567890123456789012345679 3) := by decide +kernel
  have hagree := evaluateExpression_enclosed henv hbound hwritable henclosed .none .none
  change Agree SameFault _ (evaluateExpression [] longFacts "-y - x")
    (evaluateExpression [] longFacts "-y - (x)") at hagree
  obtain ⟨context, hopen⟩ := exists_of_number? hvalue
  rw [hopen] at hagree ⊢
  generalize evaluateExpression [] longFacts "-y - (x)" = r at hagree ⊢
  cases hagree with
  | @ok _ r' hr =>
    obtain ⟨halike, rfl, hcontext⟩ := hr
    obtain ⟨w, context'⟩ := r'
    obtain rfl : context' = longFacts := hcontext
    rcases halike with heq | ⟨x, y, hx, hy, hsame⟩
    · cases heq
      exact ⟨_, _, rfl, rfl, .refl (Decimal.isFinite_finite _ _ _)⟩
    · cases hx
      cases hy
      exact ⟨_, _, rfl, rfl, hsame⟩

/-- A number without a literal is not found between parentheses; and directly behind a minus sign,
a long number is rounded as the value of a name, but not as a numeral. -/
theorem enclosed_differs :
    (number? ((evaluateExpression [] (.facts ⟨[("x", .decimal (.undefined false false 0))]⟩)
          "x").map Prod.fst) = some (.undefined false false 0) ∧
        fault? ((evaluateExpression [] (.facts ⟨[("x", .decimal (.undefined false false 0))]⟩)
          "(x)").map Prod.fst) = some (.unresolved "NaN")) ∧
      number? ((evaluateExpression [] longFacts "-x").map Prod.fst) =
        some (.finite true 1234567890123456789012345679 3) ∧
      number? ((evaluateExpression [] longFacts "-(x)").map Prod.fst) =
        some (.finite true 1234567890123456789012345678901 0) := by
  refine ⟨⟨?_, ?_⟩, ?_, ?_⟩ <;> decide +kernel

end Expression

end BusinessRules

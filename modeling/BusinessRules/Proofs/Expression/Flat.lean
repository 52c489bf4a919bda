import BusinessRules.Proofs.Expression.Meaning
import BusinessRules.Proofs.Expression.Sign

/-!
# Evaluation of texts without groups

The evaluator takes the text of a flat formula apart where the ladder takes the formula apart, and
what is left at the end is the text of one operand.  Only there do text and tree differ: a sign
directly in front of a numeral may belong to the sign or to the numeral, which comes to the same
because a number that fits the precision has an exact negation.

## Main statements

* `evaluateFlat_formula`: the evaluator computes the value of a flat formula from its text
-/

namespace BusinessRules

/- Powers are the plain ones of the natural numbers and the integers. -/
attribute [local instance (2000)] instPowNat

namespace Numeral

theorem takeMantissa?_eq_none {c : Char} (h : Expression.isMantissaChar c = false)
    (cs : List Char) :
    takeMantissa? (c :: cs) = none := by
  rw [Expression.isMantissaChar, Bool.or_eq_false_iff, decide_eq_false_iff_not] at h
  have htake : (c :: cs).takeWhile Text.isDigit = [] :=
    List.takeWhile_cons_of_neg (by simp [h.1])
  have hdrop : (c :: cs).dropWhile Text.isDigit = c :: cs :=
    List.dropWhile_cons_of_neg (by simp [h.1])
  unfold takeMantissa?
  simp only [htake, hdrop]
  split
  · next heq => exact absurd (List.cons.inj heq).1 h.2
  · rfl

/-- The sign that a text does not begin with. -/
theorem takeSign_of_not_sign {c : Char} (hplus : c ≠ '+') (hminus : c ≠ '-') (cs : List Char) :
    takeSign (c :: cs) = (false, c :: cs) := by
  unfold takeSign
  split
  · next heq => exact absurd (List.cons.inj heq).1 hplus
  · next heq => exact absurd (List.cons.inj heq).1 hminus
  · rfl

/-- A text that begins with neither a sign nor a digit nor a point is no numeral. -/
theorem read?_eq_none {c : Char} (hsign : Expression.operators.contains c = false)
    (hmantissa : Expression.isMantissaChar c = false) (cs : List Char) :
    read? (c :: cs) = none := by
  have hplus : c ≠ '+' := (Expression.ne_of_class (by decide) hsign).symm
  have hminus : c ≠ '-' := (Expression.ne_of_class (by decide) hsign).symm
  rw [read?, takeSign_of_not_sign hplus hminus]
  simp only [takeMantissa?_eq_none hmantissa, Option.bind_none]

theorem takeSign_of_isMantissaChar {c : Char} (h : Expression.isMantissaChar c = true)
    (cs : List Char) : takeSign (c :: cs) = (false, c :: cs) :=
  takeSign_of_not_sign (Expression.ne_of_class h (by decide))
    (Expression.ne_of_class h (by decide)) cs

/-- A numeral that begins like a mantissa has no sign. -/
theorem negative_of_read? {c : Char} (h : Expression.isMantissaChar c = true) {cs : List Char}
    {n : Numeral} (hn : read? (c :: cs) = some n) : n.negative = false := by
  rw [read?, takeSign_of_isMantissaChar h] at hn
  simp only [Option.bind_eq_some_iff, Option.map_eq_some_iff] at hn
  obtain ⟨parts, -, power, -, rfl⟩ := hn
  rfl

/-- A sign in front of a text that begins like a mantissa is the sign of the numeral. -/
theorem read?_sign (negative : Bool) {c : Char} (hmantissa : Expression.isMantissaChar c = true)
    (cs : List Char) : read? (Expression.signSymbol negative :: c :: cs) =
      (read? (c :: cs)).map fun n => { n with negative := negative } := by
  have hsign : takeSign (Expression.signSymbol negative :: c :: cs) = (negative, c :: cs) := by
    cases negative <;> rfl
  rw [read?, hsign, read?, takeSign_of_isMantissaChar hmantissa, Option.map_bind]
  simp only [Function.comp_def, Option.map_map]

/-- Behind a sign, a numeral begins with a digit or a point. -/
theorem read?_sign_eq_none (negative : Bool) {c : Char}
    (hmantissa : Expression.isMantissaChar c = false) (cs : List Char) :
    read? (Expression.signSymbol negative :: c :: cs) = none := by
  have hsign : takeSign (Expression.signSymbol negative :: c :: cs) = (negative, c :: cs) := by
    cases negative <;> rfl
  rw [read?, hsign]
  simp only [takeMantissa?_eq_none hmantissa, Option.bind_none]

end Numeral

namespace Expression

open Text (Blanks Tight)

/-! ## Words as literals -/

theorem mem_toLower_of_word? {cs : List Char} {v : Value} (h : Literal.word? cs = some v) :
    cs.map Char.toLower = ['t', 'r', 'u', 'e'] ∨ cs.map Char.toLower = ['f', 'a', 'l', 's', 'e'] ∨
      cs.map Char.toLower = ['n', 'u', 'l', 'l'] := by
  have hlist : ∀ s : String, String.ofList (cs.map Char.toLower) = s →
      cs.map Char.toLower = s.toList := by
    rintro s rfl
    rw [String.toList_ofList]
  simp only [Literal.word?] at h
  split at h
  · next heq => exact .inl (hlist _ heq)
  · split at h
    · next heq => exact .inr (.inl (hlist _ heq))
    · split at h
      · next heq => exact .inr (.inr (hlist _ heq))
      · cases h

/-- A text that begins with a sign is none of the words with a value. -/
theorem word?_sign (negative : Bool) (cs : List Char) :
    Literal.word? (signSymbol negative :: cs) = none := by
  by_contra hword
  obtain ⟨v, hv⟩ := Option.ne_none_iff_exists'.1 hword
  have hlower : (signSymbol negative).toLower = signSymbol negative := by
    cases negative <;> decide
  have := mem_toLower_of_word? hv
  rw [List.map_cons, hlower] at this
  rcases this with h | h | h <;>
    cases negative <;> exact absurd (List.cons.inj h).1 (by decide)

theorem unquote?_eq_none {c : Char} (h : Literal.isQuote c = false) (cs : List Char) :
    Literal.unquote? (c :: cs) = none := by
  rw [Literal.unquote?, h]
  rfl

theorem unquote?_quoted {q : Char} (isMark : Literal.isQuote q = true) {cs : List Char}
    (inside : q ∉ cs) : Literal.unquote? (q :: cs ++ [q]) = some cs := by
  rw [List.cons_append, Literal.unquote?, isMark, List.getLast?_concat, List.dropLast_concat]
  simp [inside]

theorem isMantissaChar_of_isQuote {c : Char} (h : Literal.isQuote c = true) :
    isMantissaChar c = false := by
  simp only [Literal.isQuote, Bool.or_eq_true, decide_eq_true_eq] at h
  rcases h with rfl | rfl <;> decide

/-- The first characters of names are neither signs nor parts of mantissas nor quote marks. -/
theorem exists_nameStart {cs : List Char} (h : isIdentifier cs = true) :
    ∃ c rest, cs = c :: rest ∧ isMantissaChar c = false ∧ operators.contains c = false ∧
      Literal.isQuote c = false := by
  obtain ⟨c, rest, rfl⟩ : ∃ c rest, cs = c :: rest :=
    List.exists_cons_of_ne_nil (by rintro rfl; exact Bool.noConfusion h)
  have hword : isWordPart c = true := by
    rw [isWordPart, isNameChar_of_isIdentifier h c List.mem_cons_self, Bool.true_or]
  rw [isIdentifier, Bool.and_eq_true] at h
  exact ⟨c, rest, rfl, isMantissaChar_of_isNameStart h.1, operators_of_isWordPart hword,
    isQuote_of_isWordPart hword⟩

/-- A word reads as its value, or it is a name that is no literal. -/
theorem read?_leaf (l : Leaf) (names : Names) :
    (∃ x, Literal.read? l.text = x.map some ∧ l.value names = x) ∨
      ∃ cs identifier, l = .name cs identifier ∧ Literal.read? cs = .ok none ∧
        l.value names = resolve names cs := by
  have htrim := l.tight.trim_self
  cases l with
  | number cs reads =>
    refine .inl ⟨_, ?_, rfl⟩
    obtain ⟨n, hn⟩ := Option.isSome_iff_exists.1 reads
    rw [Leaf.text] at htrim ⊢
    simp only [Literal.read?, htrim, hn, Leaf.value, Option.bind_some]
    cases n.toDecimal? with
    | none => rfl
    | some d => rfl
  | quoted q cs isMark inside =>
    refine .inl ⟨_, ?_, rfl⟩
    have hoperator := operators_of_isQuote isMark
    rw [Leaf.text] at htrim ⊢
    simp only [Literal.read?, htrim, Leaf.value]
    rw [List.cons_append, Numeral.read?_eq_none hoperator (isMantissaChar_of_isQuote isMark),
      ← List.cons_append, unquote?_quoted isMark inside]
    rfl
  | name cs identifier =>
    obtain ⟨c, rest, hcs, hmantissa, hoperator, hquote⟩ := exists_nameStart identifier
    have hread : Literal.read? cs = .ok (Literal.word? cs) := by
      rw [Leaf.text] at htrim
      rw [Literal.read?, htrim, hcs]
      simp only [Numeral.read?_eq_none hoperator hmantissa, unquote?_eq_none hquote]
    rcases hword : Literal.word? cs with _ | v
    · refine .inr ⟨cs, identifier, rfl, by rw [hread, hword], ?_⟩
      simp only [Leaf.value, hword, resolve, identifier, if_true]
      rcases names (String.ofList cs) with f | _ | v <;> rfl
    · refine .inl ⟨.ok v, by rw [Leaf.text, hread, hword]; rfl, ?_⟩
      simp only [Leaf.value, hword]

/-! ## One step of the evaluator -/

variable {p : Precision} {names : Names}

/-- A text is evaluated in the two parts at which it is taken apart. -/
theorem evaluateFlat_operation {cs : List Char} {op : Char} {i : Nat}
    (hparen : (mask cs).contains ')' = false) (h : mainOperator? (mask cs) = some (op, i)) :
    evaluateFlat p names cs =
      match evaluateFlat p names (Text.trim (cs.take i)) with
      | .error f => .error f
      | .ok v =>
        match evaluateFlat p names (Text.trim (cs.drop (i + 1))) with
        | .error f => .error f
        | .ok w => operate p op v w := by
  rw [evaluateFlat, hparen, if_neg Bool.false_ne_true]
  split
  · next h' =>
    rw [h] at h'
    cases h'
    rfl
  · next h' =>
    rw [h] at h'
    cases h'

theorem evaluateFlat_split {cs : List Char} {op : Operation} {i : Nat}
    (hparen : (mask cs).contains ')' = false) (h : mainOperator? (mask cs) = some (op.symbol, i)) :
    evaluateFlat p names cs =
      op.combine p (evaluateFlat p names (Text.trim (cs.take i)))
        (evaluateFlat p names (Text.trim (cs.drop (i + 1)))) := by
  rw [evaluateFlat_operation hparen h]
  simp only [operate_symbol]
  rfl

/-- A text that is not taken apart is a literal, a sign in front of a text, or a name. -/
theorem evaluateFlat_operand {cs : List Char} (hparen : (mask cs).contains ')' = false)
    (h : mainOperator? (mask cs) = none) (hne : cs ≠ []) :
    evaluateFlat p names cs =
      match Literal.read? cs with
      | .error f => .error f
      | .ok (some v) => .ok v
      | .ok none =>
        match signed? cs with
        | some (sign, rest) =>
          (evaluateFlat p names (Text.trim rest)).bind (applySign p sign)
        | none => resolve names cs := by
  rw [evaluateFlat, hparen, if_neg Bool.false_ne_true]
  split
  · next h' =>
    rw [h] at h'
    cases h'
  · rw [List.isEmpty_eq_false_iff.2 hne, if_neg Bool.false_ne_true]
    generalize Literal.read? cs = x
    rcases x with f | _ | v
    · rfl
    · simp only
      split
      · next h' =>
        simp only [h']
        cases evaluateFlat p names (Text.trim _) with
        | error f => rfl
        | ok v => rfl
      · next h' => rw [h']
    · rfl

/-! ## Operands -/

/-- A word is evaluated to its value. -/
theorem evaluateFlat_leaf (l : Leaf) (hparen : (mask l.text).contains ')' = false)
    (hmain : mainOperator? (mask l.text) = none) :
    evaluateFlat p names l.text = l.value names := by
  rw [evaluateFlat_operand hparen hmain l.tight.ne_nil]
  rcases read?_leaf l names with ⟨x, hread, hvalue⟩ | ⟨cs, identifier, rfl, hread, hvalue⟩
  · rw [hread, hvalue]
    cases x with
    | error f => rfl
    | ok v => rfl
  · obtain ⟨c, rest, rfl, -, hoperator, -⟩ := exists_nameStart identifier
    have hsigned : signed? (c :: rest) = none := by
      have hsign : (c = '+' || c = '-') = false := by
        rw [Bool.or_eq_false_iff, decide_eq_false_iff_not, decide_eq_false_iff_not]
        exact ⟨(ne_of_class (by decide) hoperator).symm, (ne_of_class (by decide) hoperator).symm⟩
      cases rest with
      | nil => rfl
      | cons d rest => rw [signed?, hsign, if_neg Bool.false_ne_true]
    rw [Leaf.text, hread, hvalue, hsigned]

/-- Only a numeral begins like a mantissa. -/
theorem exists_number_of_text {o : Operand} {c : Char} {rest : List Char} (h : o.text = c :: rest)
    (hmantissa : isMantissaChar c = true) : ∃ reads, o = .leaf (.number (c :: rest) reads) := by
  match o, h with
  | .leaf (.number cs reads), h =>
    cases (show cs = c :: rest from h)
    exact ⟨reads, rfl⟩
  | .leaf (.quoted q cs isMark inside), h =>
    cases (List.cons.inj h).1
    rw [isMantissaChar_of_isQuote isMark] at hmantissa
    cases hmantissa
  | .leaf (.name cs identifier), h =>
    obtain ⟨d, ds, rfl, hd, -⟩ := exists_nameStart identifier
    cases (List.cons.inj h).1
    rw [hd] at hmantissa
    cases hmantissa
  | .signed negative gap o, h =>
    rw [Operand.text, List.cons_append] at h
    cases (List.cons.inj h).1
    cases negative <;> exact absurd hmantissa (by decide)
  | .group front inside back, h =>
    rw [Operand.text, List.cons_append, List.cons_append, List.cons_append] at h
    cases (List.cons.inj h).1
    exact absurd hmantissa (by decide)

/-- A sign directly in front of a numeral that fits is a sign of the number. -/
theorem signedOutcome_number (negative : Bool) {n : Numeral} {d : Decimal}
    (hd : n.toDecimal? = some d) (hfits : d.Fits p) (hpositive : n.negative = false) :
    ∃ x, ({ n with negative := negative } : Numeral).toDecimal? = some x ∧
      Agree Eq (Close p) (.ok (.number x)) (signedOutcome p negative (.ok (.number d))) := by
  obtain ⟨sign, c, e⟩ := n
  cases hpositive
  rw [Numeral.toDecimal?] at hd
  split at hd
  swap
  · cases hd
  next hrange =>
  cases hd
  refine ⟨.finite negative c e, by rw [Numeral.toDecimal?, if_pos hrange], ?_⟩
  cases negative with
  | false => exact .ok (.refl hfits)
  | true =>
    -- Negation rounds, which does not change a number that fits.
    have hneg := Decimal.neg_of_fits hfits
    have hfits' : (Decimal.finite true c e).Fits p := hfits.not
    rcases hz : (Decimal.finite false c e).neg p with f | z
    · rw [hz] at hneg
      cases hneg
    · rw [hz] at hneg
      have hvalue : z.toRat = -(Decimal.finite false c e).toRat := Except.ok.inj hneg
      simp only [signedOutcome, Value.toNumber, if_true, hz, ofArithmetic]
      refine .ok (.number hfits' (Decimal.neg_fits hfits.isFinite hz) ?_)
      rw [hvalue, ← Decimal.toRat_not, Bool.not_false]

/-- How the text of a sign in front of an operand is read: together with the numeral that directly
follows, or else as a sign in front of the text that follows. -/
theorem signed_text (negative : Bool) (gap : Blanks) (o : Operand) :
    (gap.chars = [] ∧ ∃ chars reads n, o = .leaf (.number chars reads) ∧
        Numeral.read? chars = some n ∧ n.negative = false ∧
        Numeral.read? (Operand.signed negative gap o).text =
          some { n with negative := negative }) ∨
      (Literal.read? (Operand.signed negative gap o).text = .ok none ∧
        ∃ rest, signed? (Operand.signed negative gap o).text = some (signSymbol negative, rest) ∧
          Text.trim rest = o.text) := by
  have htight := (Operand.signed negative gap o).tight
  have htext : (Operand.signed negative gap o).text =
      signSymbol negative :: (gap.chars ++ o.text) := rfl
  rw [Literal.read?, htight.trim_self, htext]
  obtain ⟨c, rest, hrest⟩ : ∃ c rest, gap.chars ++ o.text = c :: rest :=
    List.exists_cons_of_ne_nil (List.append_ne_nil_of_right_ne_nil _ o.tight.ne_nil)
  rw [hrest]
  rcases hmantissa : isMantissaChar c with _ | _
  · refine .inr ⟨?_, c :: rest, by cases negative <;> rfl, ?_⟩
    · simp only [Numeral.read?_sign_eq_none negative hmantissa,
        unquote?_eq_none (isQuote_of_operator (operators_signSymbol negative)),
        word?_sign negative]
    · have := o.tight.trim gap.blank Blanks.none.blank
      rwa [show Blanks.none.chars = [] from rfl, List.append_nil, hrest] at this
  · have hgap : gap.chars = [] := by
      rcases hg : gap.chars with _ | ⟨d, ds⟩
      · rfl
      · rw [hg, List.cons_append] at hrest
        have hblank := gap.blank c (by rw [hg, (List.cons.inj hrest).1]; exact List.mem_cons_self)
        rw [isBlank_of_isWordPart (by rw [isWordPart, hmantissa, Bool.or_true])] at hblank
        cases hblank
    rw [hgap, List.nil_append] at hrest
    obtain ⟨reads, rfl⟩ := exists_number_of_text hrest hmantissa
    obtain ⟨n, hn⟩ := Option.isSome_iff_exists.1 reads
    refine .inl ⟨hgap, c :: rest, reads, n, rfl, hn, Numeral.negative_of_read? hmantissa hn, ?_⟩
    rw [Numeral.read?_sign negative hmantissa, hn, Option.map_some]

/-- How a sign in front of an operand is evaluated: as one numeral, or after what follows it. -/
theorem evaluateFlat_sign (negative : Bool) (gap : Blanks) (o : Operand)
    (hparen : (mask (Operand.signed negative gap o).text).contains ')' = false)
    (hmain : mainOperator? (mask (Operand.signed negative gap o).text) = none) :
    (gap.chars = [] ∧ ∃ chars reads n, o = .leaf (.number chars reads) ∧
        Numeral.read? chars = some n ∧ n.negative = false ∧
        ∀ p names, evaluateFlat p names (Operand.signed negative gap o).text =
          ofArithmetic (({ n with negative := negative } : Numeral).toDecimal?.elim
            (.error .invalidOperation) .ok)) ∨
      ∀ p names, evaluateFlat p names (Operand.signed negative gap o).text =
        (evaluateFlat p names o.text).bind (applySign p (signSymbol negative)) := by
  have htight := (Operand.signed negative gap o).tight
  rcases signed_text negative gap o with ⟨hgap, chars, reads, n, rfl, hn, hpositive, hsign⟩ |
    ⟨hread, rest, hsigned, htrim⟩
  · refine .inl ⟨hgap, chars, reads, n, rfl, hn, hpositive, fun p names => ?_⟩
    rw [evaluateFlat_operand hparen hmain htight.ne_nil, Literal.read?, htight.trim_self, hsign]
    cases hd : ({ n with negative := negative } : Numeral).toDecimal? with
    | none =>
      simp only [hd]
      rfl
    | some d =>
      simp only [hd]
      rfl
  · refine .inr fun p names => ?_
    rw [evaluateFlat_operand hparen hmain htight.ne_nil]
    simp only [hread, hsigned, htrim]

/-- A sign in front of an operand is evaluated to the sign of its value. -/
theorem evaluateFlat_signed (negative : Bool) (gap : Blanks) (o : Operand) (hfits : o.Fits p)
    (hparen : (mask (Operand.signed negative gap o).text).contains ')' = false)
    (hmain : mainOperator? (mask (Operand.signed negative gap o).text) = none)
    (ih : Agree Eq (Close p) (evaluateFlat p names o.text) (o.value p names)) :
    Agree Eq (Close p) (evaluateFlat p names (Operand.signed negative gap o).text)
      (signedOutcome p negative (o.value p names)) := by
  rcases evaluateFlat_sign negative gap o hparen hmain with
    ⟨-, chars, reads, n, rfl, hn, hpositive, hread⟩ | hsign
  · -- The sign and the numeral behind it are read as one numeral.
    obtain ⟨d, hd, hdfits⟩ := hfits _ (List.mem_singleton_self _)
    rw [hn, Option.bind_some] at hd
    obtain ⟨x, hx, hagree⟩ := signedOutcome_number negative hd hdfits hpositive
    have hvalue : (Operand.leaf (.number chars reads)).value p names = .ok (.number d) := by
      simp only [Operand.value, Leaf.value, hn, Option.bind_some, hd]
    rw [hread, hx, hvalue]
    exact hagree
  · -- What follows the sign is evaluated by itself.
    have hbind : ∀ x : Outcome Value, x.bind (applySign p (signSymbol negative)) =
        signedOutcome p negative x := by
      intro x
      cases x with
      | error f => rfl
      | ok v => cases negative <;> rfl
    rw [hsign, hbind]
    exact signedOutcome_congr negative ih

/-! ## Formulas -/

theorem word_fits {cs : List Char} {v : Value} (h : Literal.word? cs = some v) (p : Precision) :
    v.toNumber.Fits p := by
  have hzero : v.toNumber = .zero := by
    simp only [Literal.word?] at h
    split at h
    · cases h
      rfl
    · split at h
      · cases h
        rfl
      · split at h
        · cases h
          rfl
        · cases h
  rw [hzero]
  exact fits_zero p

/-- The value of a word that fits, fits. -/
theorem Leaf.value_fits {l : Leaf} (hl : l.Fits p) (hnames : NamesFit p names) :
    Agree Eq (Close p) (l.value names) (l.value names) := by
  cases l with
  | number cs reads =>
    obtain ⟨d, hd, hfits⟩ := hl
    simp only [Leaf.value, hd]
    exact .ok (.refl hfits)
  | quoted q cs isMark inside => exact .ok (.refl hl)
  | name cs identifier =>
    rw [Leaf.value]
    rcases hword : Literal.word? cs with _ | v
    · rcases hname : names (String.ofList cs) with f | _ | v
      · exact .error rfl
      · exact .error rfl
      · exact .ok (.refl (hnames _ _ hname))
    · exact .ok (.refl (word_fits hword p))

/-- A flat text shows no closing parenthesis. -/
theorem not_closing_of_flat {s : Formula} (hs : Formula.IsFlat s) :
    (mask (Formula.text s)).contains ')' = false := by
  rw [Bool.eq_false_iff]
  intro h
  have := (Formula.shows (fun _ => id) s (.inl hs)).all ')' (by simpa using h)
  exact absurd this (by decide)

/-- A flat operand is not taken apart. -/
theorem Operand.whole {o : Operand} (ho : o.IsFlat) :
    (mask o.text).contains ')' = false ∧ mainOperator? (mask o.text) = none :=
  ⟨not_closing_of_flat (Formula.isFlat_single ho),
    mainOperator?_formula (.single o) (Formula.isFlat_single ho)⟩

/-- A word alone is evaluated to its value. -/
theorem evaluateFlat_word (l : Leaf) : evaluateFlat p names l.text = l.value names :=
  have hwhole : (mask l.text).contains ')' = false ∧ mainOperator? (mask l.text) = none :=
    Operand.whole (o := .leaf l) trivial
  evaluateFlat_leaf l hwhole.1 hwhole.2

/-- A flat formula whose text is cut where the formula is taken apart: trimming leaves the texts of
the two parts. -/
structure Formula.Cut (s : Formula) (op : Operation) (t : Sequence.Split Operand) : Prop where
  main : mainOperator? (mask (Formula.text s)) = some (op.symbol, Formula.place t)
  left : Text.trim ((Formula.text s).take (Formula.place t)) = Formula.text t.left
  right : Text.trim ((Formula.text s).drop (Formula.place t + 1)) = Formula.text t.right
  left_flat : Formula.IsFlat t.left
  right_flat : Formula.IsFlat t.right
  left_lt : (Formula.text t.left).length < (Formula.text s).length
  right_lt : (Formula.text t.right).length < (Formula.text s).length

theorem Formula.cut {s : Formula} (hs : Formula.IsFlat s) {op : Operation}
    {t : Sequence.Split Operand} (h : s.mainSplit? = some (op, t)) : Formula.Cut s op t := by
  have hjoin := Sequence.eq_join_of_mainSplit? h
  have hparts : Formula.IsFlat t.left ∧ Formula.IsFlat t.right := by
    rw [Formula.IsFlat, hjoin, Sequence.Split.join, Sequence.operands_join] at hs
    exact List.forall_mem_append.1 hs
  have htext : Formula.text s = Formula.text t.left ++ t.before.chars ++
      op.symbol :: (t.after.chars ++ Formula.text t.right) := by
    rw [hjoin, Sequence.Split.join, Formula.text_join]
    simp
  have hlength := congrArg List.length htext
  simp only [List.length_append, List.length_cons] at hlength
  have hplace : Formula.place t = (Formula.text t.left ++ t.before.chars).length := by
    rw [Formula.place, List.length_append]
  refine ⟨by rw [mainOperator?_formula s hs, h, Option.map_some], ?_, ?_, hparts.1, hparts.2,
    by omega, by omega⟩
  · have := (Formula.tight t.left).trim Blanks.none.blank t.before.blank
    rwa [htext, hplace, List.take_left]
  · have := (Formula.tight t.right).trim t.after.blank Blanks.none.blank
    rw [show Blanks.none.chars = [] from rfl, List.append_nil] at this
    rw [htext, hplace, ← List.drop_drop, List.drop_left, List.drop_one, List.tail_cons, this]

/-- **The evaluator computes the value of a flat formula from its text.** -/
theorem evaluateFlat_formula (hnames : NamesFit p names) (s : Formula) (hs : Formula.IsFlat s)
    (hfits : Formula.Fits p s) :
    Agree Eq (Close p) (evaluateFlat p names (Formula.text s)) (Formula.value p names s) := by
  -- The induction is on the length of the text: the sides of an operation and the operand of a
  -- sign have shorter texts, though the evaluator trims what it cuts off.
  induction hn : (Formula.text s).length using Nat.strong_induction_on generalizing s with
  | _ n ih =>
    subst hn
    have hparen := not_closing_of_flat hs
    have hmain := mainOperator?_formula s hs
    rcases hsplit : s.mainSplit? with _ | ⟨op, t⟩
    · -- A single operand without groups is a word or a sign in front of an operand.
      obtain ⟨o, rfl⟩ := Sequence.exists_single_of_mainSplit? hsplit
      rw [hsplit, Option.map_none] at hmain
      rw [Formula.value_single]
      match o with
      | .leaf l =>
        change Agree Eq (Close p) (evaluateFlat p names l.text) (l.value names)
        rw [evaluateFlat_leaf l hparen hmain]
        exact l.value_fits (hfits l (List.mem_singleton_self _)) hnames
      | .signed negative gap o =>
        have ho : o.IsFlat := hs (.signed negative gap o) List.mem_cons_self
        refine evaluateFlat_signed negative gap o hfits hparen hmain ?_
        rw [← Formula.value_single]
        refine ih _ ?_ (.single o) (Formula.isFlat_single ho) hfits rfl
        simp only [Formula.text, Operand.text, List.length_append, List.length_cons]
        omega
      | .group _ _ _ => exact (hs _ (List.mem_singleton_self _)).elim
    · have hcut := Formula.cut hs hsplit
      have hfit : Formula.Fits p t.left ∧ Formula.Fits p t.right := by
        rwa [Sequence.eq_join_of_mainSplit? hsplit, Sequence.Split.join, Formula.fits_join] at hfits
      rw [evaluateFlat_split hparen hcut.main, Formula.value_of_mainSplit? p names hsplit,
        hcut.left, hcut.right]
      exact op.combine_congr (ih _ hcut.left_lt t.left hcut.left_flat hfit.1 rfl)
        (ih _ hcut.right_lt t.right hcut.right_flat hfit.2 rfl)

end Expression

end BusinessRules

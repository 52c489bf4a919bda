import Mathlib.Tactic.Ring
import BusinessRules.Proofs.Expression.Precedence
import BusinessRules.Proofs.Expression.Refinement

/-!
# Evaluations in which nothing is rounded

Which operations the evaluator carries out is told step by step along its own recursion.  If every
one of them is exact, the value of a formula without groups is the rational that the formula has by
convention, and the evaluation divides by zero exactly if that rational does not exist.

Numerals and facts may be longer than the precision here: reading them does not round.

## Main definitions

* `Step`, `Step.IsExact`: the decimal operations, and those that do not round
* `steps`: the operations that the evaluation of a text carries out, in order
* `Operand.rational?`, `Formula.rational?`: the rationals of operands and formulas
* `Denotes`: outcomes that are such a rational, or a division by zero where there is none

## Main statements

* `denotes_evaluateFlat`: without rounding, the outcome of a flat text denotes its rational
* `evaluateExpression_exact`: the same for expressions
-/

namespace BusinessRules

/-- The rational that a numeral spells. -/
def Numeral.toRat (n : Numeral) : ℚ :=
  (Decimal.finite n.negative n.coefficient n.exponent).toRat

theorem Decimal.equalsZero_of_isFinite {x : Decimal} (h : x.IsFinite) :
    x.equalsZero = .ok (decide (x.toRat = 0)) := by
  obtain ⟨n, c, e, rfl⟩ := h
  rw [equalsZero, Except.ok.injEq, Bool.eq_iff_iff, beq_iff_eq, decide_eq_true_eq,
    toRat_eq_zero_iff]

namespace Expression

open Text (Blanks)

/-! ## Steps -/

/-- A decimal operation: a numeral is read, a number is negated, or an operation is carried out
between two numbers. -/
inductive Step where
  | read (n : Numeral)
  | negate (x : Decimal)
  | binary (op : Operation) (x y : Decimal)
  deriving DecidableEq

/-- The decimal that an operation between two decimals gives. -/
def Operation.decimal (p : Precision) : Operation → Decimal → Decimal →
    Except ArithmeticFault Decimal
  | .add, x, y => x.add p y
  | .sub, x, y => x.sub p y
  | .mul, x, y => x.mul p y
  | .div, x, y => x.div p y

/-- The rational that an operation between two rationals gives. -/
def Operation.rational : Operation → ℚ → ℚ → ℚ
  | .add, x, y => x + y
  | .sub, x, y => x - y
  | .mul, x, y => x * y
  | .div, x, y => x / y

namespace Step

/-- The decimal that a step gives. -/
def result (p : Precision) : Step → Except ArithmeticFault Decimal
  | read n =>
    match n.toDecimal? with
    | some d => .ok d
    | none => .error .invalidOperation
  | negate x => x.neg p
  | binary op x y => op.decimal p x y

/-- The rational that a step should give. -/
def rational : Step → ℚ
  | read n => n.toRat
  | negate x => -x.toRat
  | binary op x y => op.rational x.toRat y.toRat

/-- A step that does not round. -/
def IsExact (p : Precision) (step : Step) : Prop :=
  ∃ z, step.result p = .ok z ∧ z.IsFinite ∧ z.toRat = step.rational

end Step

/-- The operation that a character writes. -/
def Operation.ofSymbol? (c : Char) : Option Operation :=
  [.add, .sub, .mul, .div].find? fun op : Operation => op.symbol = c

/-- The step of an operation between two values.  A division by zero is refused beforehand. -/
def Operation.steps : Operation → Value → Value → List Step
  | .div, v, w =>
    match w.toNumber.equalsZero with
    | .ok false => [.binary .div v.toNumber w.toNumber]
    | _ => []
  | op, v, w => [.binary op v.toNumber w.toNumber]

/-- The step of a literal: only numerals are computed with. -/
def literalSteps (cs : List Char) : List Step := ((Numeral.read? (Text.trim cs)).map .read).toList

/-- The steps of the evaluation of a trimmed text without groups, in order. -/
def steps (p : Precision) (names : Names) (cs : List Char) : List Step :=
  if (mask cs).contains ')' then []
  else
    match _hop : mainOperator? (mask cs) with
    | some (op, i) =>
      steps p names (Text.trim (cs.take i)) ++
        match evaluateFlat p names (Text.trim (cs.take i)) with
        | .error _ => []
        | .ok left =>
          steps p names (Text.trim (cs.drop (i + 1))) ++
            match evaluateFlat p names (Text.trim (cs.drop (i + 1))) with
            | .error _ => []
            | .ok right => ((Operation.ofSymbol? op).map (·.steps left right)).getD []
    | none =>
      match Literal.read? cs with
      | .ok none =>
        match _hsign : signed? cs with
        | some (sign, rest) =>
          steps p names (Text.trim rest) ++
            match evaluateFlat p names (Text.trim rest) with
            | .error _ => []
            | .ok v => if sign = '-' then [.negate v.toNumber] else []
        | none => []
      | _ => literalSteps cs
termination_by cs.length
decreasing_by
  · have := lt_of_mainOperator? _hop
    have := Text.length_trim_le (cs.take i)
    simp only [List.length_take] at this
    omega
  · have := lt_of_mainOperator? _hop
    have := Text.length_trim_le (cs.drop (i + 1))
    simp only [List.length_drop] at this
    omega
  · have := length_of_signed? _hsign
    have := Text.length_trim_le rest
    omega

/-! ## Rationals of formulas -/

/-- The result of an operation on rationals that may be missing; a division by zero has none. -/
def Operation.rational? (op : Operation) (x y : Option ℚ) : Option ℚ :=
  x.bind fun a => y.bind fun b =>
    if op = .div ∧ b = 0 then none else some (op.rational a b)

/-- The rational that a word stands for: that of its number, or of the number that its value is
taken for. -/
def Leaf.rational (names : Names) : Leaf → ℚ
  | number chars _ => ((Numeral.read? chars).map Numeral.toRat).getD 0
  | quoted _ chars _ _ => (Value.text (String.ofList chars)).toNumber.toRat
  | name chars _ =>
    match Literal.word? chars, names (String.ofList chars) with
    | some v, _ => v.toNumber.toRat
    | none, .ok (some v) => v.toNumber.toRat
    | none, _ => 0

mutual

/-- The rational of an operand, if no division by zero occurs in it. -/
def Operand.rational? (names : Names) : Operand → Option ℚ
  | .leaf word => some (word.rational names)
  | .signed negative _ operand =>
    (operand.rational? names).map fun x => if negative then -x else x
  | .group _ inside _ => (Formula.rationals names inside).conventional Operation.rational?

/-- The rationals of the operands of a formula. -/
def Formula.rationals (names : Names) : Sequence Operand → Sequence (Option ℚ)
  | .single operand => .single (operand.rational? names)
  | .link operand before op after rest =>
    .link (operand.rational? names) before op after (Formula.rationals names rest)

end

/-- The rational of a formula by convention: signs first, then multiplications and divisions, then
additions and subtractions, each from left to right.  It is missing if that divides by zero. -/
def Formula.rational? (names : Names) (s : Formula) : Option ℚ :=
  (Formula.rationals names s).conventional Operation.rational?

/-- Rational operations may be regrouped, divisions by zero included. -/
theorem regroups_rational? : Sequence.Regroups Operation.rational? := by
  constructor
  all_goals
    rintro (_ | a) (_ | b) (_ | c)
    all_goals try rfl
  · simp [Operation.rational?, Operation.rational, add_assoc]
  · simp [Operation.rational?, Operation.rational, add_sub_assoc]
  · simp [Operation.rational?, Operation.rational, mul_assoc]
  · by_cases hc : c = 0
    · simp [Operation.rational?, hc]
    · simp [Operation.rational?, Operation.rational, hc, mul_div_assoc]

/-- The rational of a formula that is taken apart by the ladder. -/
theorem Formula.rational?_of_mainSplit? (names : Names) {s : Formula} {op : Operation}
    {t : Sequence.Split Operand} (h : s.mainSplit? = some (op, t)) :
    Formula.rational? names s =
      op.rational? (Formula.rational? names t.left) (Formula.rational? names t.right) := by
  have hmap : ∀ s : Formula, Formula.rationals names s = s.map (Operand.rational? names) := by
    intro s
    induction s with
    | single o => rw [Formula.rationals, Sequence.map]
    | link o before op after rest ih => rw [Formula.rationals, Sequence.map, ih]
  simp only [Formula.rational?, hmap, ← Sequence.ladder_eq_conventional regroups_rational?]
  exact Sequence.ladder_map_of_mainSplit? _ _ h

theorem Formula.rational?_single (names : Names) (o : Operand) :
    Formula.rational? names (.single o) = o.rational? names := rfl

/-! ## Outcomes that denote rationals -/

/-- An outcome that is a rational, or a division by zero where there is none. -/
inductive Denotes : Outcome Value → Option ℚ → Prop
  | value {v : Value} : v.toNumber.IsFinite → Denotes (.ok v) (some v.toNumber.toRat)
  | divisionByZero : Denotes (.error .divisionByZero) none

theorem Denotes.number {x : Decimal} {q : ℚ} (h : x.IsFinite) (hq : x.toRat = q) :
    Denotes (.ok (.number x)) (some q) :=
  hq ▸ .value h

/-- Names that stand for finite numbers, if they stand for numbers. -/
def NamesFinite (names : Names) : Prop :=
  ∀ name x, names name = .ok (some (.number x)) → x.IsFinite

/-- A word that has a value if it is a name. -/
def Leaf.IsBound (names : Names) : Leaf → Prop
  | name chars _ => Literal.word? chars = none → ∃ v, names (String.ofList chars) = .ok (some v)
  | _ => True

/-- A formula all of whose names have values. -/
def Formula.IsBound (names : Names) (s : Formula) : Prop :=
  ∀ l ∈ Formula.leaves s, l.IsBound names

theorem isFinite_zero : Decimal.zero.IsFinite := Decimal.isFinite_finite false 0 0

/-- Only a number that is not finite itself is taken for one. -/
theorem isFinite_toNumber {v : Value} (h : ∀ x, v = .number x → x.IsFinite) :
    v.toNumber.IsFinite := by
  cases v with
  | number x => exact h x rfl
  | text s =>
    rw [Value.toNumber, Value.numberOfText]
    cases hd : (Numeral.read? (Text.trim s.toList)).bind Numeral.toDecimal? with
    | none => exact isFinite_zero
    | some d =>
      obtain ⟨n, -, hn⟩ := Option.bind_eq_some_iff.1 hd
      rw [Numeral.toDecimal?] at hn
      split at hn
      · cases hn
        exact Decimal.isFinite_finite ..
      · cases hn
  | null => exact isFinite_zero
  | bool b => exact isFinite_zero
  | list items => exact isFinite_zero

variable {p : Precision} {names : Names}

/-- A numeral that is read exactly is a value. -/
theorem exists_of_isExact_read {n : Numeral} (h : (Step.read n).IsExact p) :
    ∃ d, n.toDecimal? = some d ∧ d.IsFinite ∧ d.toRat = n.toRat := by
  obtain ⟨z, hz, hfinite, hrat⟩ := h
  rw [Step.result] at hz
  split at hz
  · next hd =>
    cases hz
    exact ⟨_, hd, hfinite, hrat⟩
  · cases hz

/-- An operation that does not round, or divides by zero. -/
theorem Operation.denotes (op : Operation) {v w : Value} (hw : w.toNumber.IsFinite)
    (hexact : ∀ step ∈ op.steps v w, step.IsExact p) :
    Denotes (op.apply p v w) (op.rational? (some v.toNumber.toRat) (some w.toNumber.toRat)) := by
  have hstep : ∀ x : Except ArithmeticFault Decimal,
      op.decimal p v.toNumber w.toNumber = x →
      (Step.binary op v.toNumber w.toNumber).IsExact p →
      Denotes (ofArithmetic x) (some (op.rational v.toNumber.toRat w.toNumber.toRat)) := by
    rintro x rfl ⟨z, hz, hfinite, hrat⟩
    rw [Step.result] at hz
    rw [hz]
    exact .number hfinite hrat
  cases op with
  | add => exact hstep _ rfl (hexact _ (List.mem_singleton_self _))
  | sub => exact hstep _ rfl (hexact _ (List.mem_singleton_self _))
  | mul => exact hstep _ rfl (hexact _ (List.mem_singleton_self _))
  | div =>
    rw [Operation.steps, Decimal.equalsZero_of_isFinite hw] at hexact
    rw [Operation.apply, Decimal.equalsZero_of_isFinite hw]
    by_cases hzero : w.toNumber.toRat = 0
    · simp only [hzero, decide_true, Operation.rational?, Option.bind_some, and_self, if_true]
      exact .divisionByZero
    · simp only [hzero, decide_false, Operation.rational?, Option.bind_some, and_false, if_false]
      simp only [hzero, decide_false] at hexact
      exact hstep _ rfl (hexact _ (List.mem_singleton_self _))

/-! ## Steps of the parts -/

theorem Operation.ofSymbol?_symbol (op : Operation) : Operation.ofSymbol? op.symbol = some op := by
  cases op <;> decide

/-- The steps of a text that is taken apart. -/
theorem steps_split {cs : List Char} {op : Operation} {i : Nat}
    (hparen : (mask cs).contains ')' = false) (h : mainOperator? (mask cs) = some (op.symbol, i)) :
    steps p names cs = steps p names (Text.trim (cs.take i)) ++
      match evaluateFlat p names (Text.trim (cs.take i)) with
      | .error _ => []
      | .ok left =>
        steps p names (Text.trim (cs.drop (i + 1))) ++
          match evaluateFlat p names (Text.trim (cs.drop (i + 1))) with
          | .error _ => []
          | .ok right => op.steps left right := by
  rw [steps, hparen, if_neg Bool.false_ne_true]
  split
  · next h' =>
    rw [h] at h'
    cases h'
    rw [Operation.ofSymbol?_symbol]
    rfl
  · next h' =>
    rw [h] at h'
    cases h'

/-- The steps of a text that is not taken apart. -/
theorem steps_operand {cs : List Char} (hparen : (mask cs).contains ')' = false)
    (h : mainOperator? (mask cs) = none) :
    steps p names cs =
      match Literal.read? cs with
      | .ok none =>
        match signed? cs with
        | some (sign, rest) =>
          steps p names (Text.trim rest) ++
            match evaluateFlat p names (Text.trim rest) with
            | .error _ => []
            | .ok v => if sign = '-' then [.negate v.toNumber] else []
        | none => []
      | _ => literalSteps cs := by
  rw [steps, hparen, if_neg Bool.false_ne_true]
  split
  · next h' =>
    rw [h] at h'
    cases h'
  · generalize Literal.read? cs = x
    rcases x with f | _ | v
    · rfl
    · simp only
      split
      · next h' => simp only [h']
      · next h' => rw [h']
    · rfl

/-- A numeral is read in one step. -/
theorem steps_numeral {cs : List Char} (hparen : (mask cs).contains ')' = false)
    (h : mainOperator? (mask cs) = none) {n : Numeral}
    (hn : Numeral.read? (Text.trim cs) = some n) : steps p names cs = [.read n] := by
  have hliteral : literalSteps cs = [.read n] := by
    rw [literalSteps, hn]
    rfl
  rw [steps_operand hparen h, Literal.read?, hn, hliteral]
  cases hd : n.toDecimal? with
  | none => simp only [hd]
  | some d => simp only [hd]

/-! ## Operands -/

/-- A word denotes its rational, if its numeral can be read. -/
theorem denotes_leaf (hnames : NamesFinite names) {l : Leaf} (hbound : l.IsBound names)
    (hparen : (mask l.text).contains ')' = false) (hmain : mainOperator? (mask l.text) = none)
    (hexact : ∀ step ∈ steps p names l.text, step.IsExact p) :
    Denotes (l.value names) (some (l.rational names)) := by
  cases l with
  | number cs reads =>
    have htrim := (Leaf.number cs reads).tight.trim_self
    obtain ⟨n, hn⟩ := Option.isSome_iff_exists.1 reads
    rw [Leaf.text] at htrim hparen hmain hexact
    rw [steps_numeral hparen hmain (htrim.symm ▸ hn)] at hexact
    obtain ⟨d, hd, hfinite, hrat⟩ := exists_of_isExact_read (hexact _ (List.mem_singleton_self _))
    simp only [Leaf.value, Leaf.rational, hn, Option.bind_some, hd, Option.map_some,
      Option.getD_some]
    exact .number hfinite hrat
  | quoted q cs isMark inside => exact .value (isFinite_toNumber fun x hx => by cases hx)
  | name cs identifier =>
    rw [Leaf.value, Leaf.rational]
    rcases hword : Literal.word? cs with _ | v
    · obtain ⟨v, hv⟩ := hbound hword
      rw [hv]
      exact .value (isFinite_toNumber fun x hx => hnames _ x (hx ▸ hv))
    · exact .value (word_fits hword p).isFinite

/-- A sign in front of an operand denotes the rational with this sign. -/
theorem denotes_signed (negative : Bool) (gap : Blanks) (o : Operand)
    (hparen : (mask (Operand.signed negative gap o).text).contains ')' = false)
    (hmain : mainOperator? (mask (Operand.signed negative gap o).text) = none)
    (hexact : ∀ step ∈ steps p names (Operand.signed negative gap o).text, step.IsExact p)
    (ih : (∀ step ∈ steps p names o.text, step.IsExact p) →
      Denotes (evaluateFlat p names o.text) (o.rational? names)) :
    Denotes (evaluateFlat p names (Operand.signed negative gap o).text)
      ((Operand.signed negative gap o).rational? names) := by
  have htight := (Operand.signed negative gap o).tight
  have htrim := htight.trim_self
  rw [evaluateFlat_operand hparen hmain htight.ne_nil]
  rcases signed_text negative gap o with ⟨-, chars, reads, n, rfl, hn, hpositive, hsign⟩ |
    ⟨hread, rest, hsigned, hrest⟩
  · -- The sign is read with the numeral, and nothing is negated.
    rw [steps_numeral hparen hmain (htrim.symm ▸ hsign)] at hexact
    obtain ⟨d, hd, hfinite, hrat⟩ := exists_of_isExact_read (hexact _ (List.mem_singleton_self _))
    rw [Literal.read?, htrim, hsign]
    simp only [hd, Operand.rational?, Leaf.rational, hn, Option.map_some, Option.getD_some]
    refine .number hfinite ?_
    rw [hrat, Numeral.toRat, Numeral.toRat, hpositive]
    cases negative with
    | false => rfl
    | true => exact Decimal.toRat_not false n.coefficient n.exponent
  · rw [steps_operand hparen hmain] at hexact
    simp only [hread, hsigned, hrest, List.forall_mem_append] at hexact
    have ho := ih hexact.1
    have hsignStep := hexact.2
    simp only [hread, hsigned, hrest]
    rw [Operand.rational?]
    generalize evaluateFlat p names o.text = x at ho hsignStep
    generalize o.rational? names = q at ho
    cases ho with
    | divisionByZero => exact .divisionByZero
    | @value v hfinite =>
      cases negative with
      | false => exact .number hfinite rfl
      | true =>
        obtain ⟨z, hz, hzfinite, hzrat⟩ := hsignStep _ (List.mem_singleton_self _)
        have hneg : v.toNumber.neg p = .ok z := hz
        change Denotes (ofArithmetic (v.toNumber.neg p)) _
        rw [hneg]
        exact .number hzfinite hzrat

/-! ## Formulas -/

/-- **Without rounding, the outcome of a flat text denotes the rational of its formula.** -/
theorem denotes_evaluateFlat (hnames : NamesFinite names) (s : Formula) (hs : Formula.IsFlat s)
    (hbound : Formula.IsBound names s)
    (hexact : ∀ step ∈ steps p names (Formula.text s), step.IsExact p) :
    Denotes (evaluateFlat p names (Formula.text s)) (Formula.rational? names s) := by
  induction hn : (Formula.text s).length using Nat.strong_induction_on generalizing s with
  | _ n ih =>
    subst hn
    have hparen := not_closing_of_flat hs
    have hmain := mainOperator?_formula s hs
    rcases hsplit : s.mainSplit? with _ | ⟨op, t⟩
    · obtain ⟨o, rfl⟩ := Sequence.exists_single_of_mainSplit? hsplit
      rw [hsplit, Option.map_none] at hmain
      rw [Formula.rational?_single]
      match o with
      | .leaf l =>
        change Denotes (evaluateFlat p names l.text) (some (l.rational names))
        rw [evaluateFlat_leaf l hparen hmain]
        exact denotes_leaf hnames (hbound l (List.mem_singleton_self _)) hparen hmain hexact
      | .signed negative gap o =>
        have ho : o.IsFlat := hs (.signed negative gap o) List.mem_cons_self
        refine denotes_signed negative gap o hparen hmain hexact fun hexact => ?_
        rw [← Formula.rational?_single]
        refine ih _ ?_ (.single o) (Formula.isFlat_single ho) hbound hexact rfl
        simp only [Formula.text, Operand.text, List.length_append, List.length_cons]
        omega
      | .group _ _ _ => exact (hs _ (List.mem_singleton_self _)).elim
    · have hcut := Formula.cut hs hsplit
      have hbounds : Formula.IsBound names t.left ∧ Formula.IsBound names t.right := by
        rw [Formula.IsBound, Sequence.eq_join_of_mainSplit? hsplit, Sequence.Split.join,
          Formula.leaves_join] at hbound
        exact List.forall_mem_append.1 hbound
      rw [steps_split hparen hcut.main, hcut.left, hcut.right] at hexact
      simp only [List.forall_mem_append] at hexact
      have hleft := ih _ hcut.left_lt t.left hcut.left_flat hbounds.1 hexact.1 rfl
      have hright := ih _ hcut.right_lt t.right hcut.right_flat hbounds.2
      have hrest := hexact.2
      rw [evaluateFlat_split hparen hcut.main, Formula.rational?_of_mainSplit? names hsplit,
        hcut.left, hcut.right]
      -- The right side is evaluated, and its steps are carried out, only if the left one has a
      -- value.
      generalize evaluateFlat p names (Formula.text t.left) = x at hleft hrest
      generalize Formula.rational? names t.left = q at hleft
      cases hleft with
      | divisionByZero => exact .divisionByZero
      | @value v hv =>
        simp only [List.forall_mem_append] at hrest
        have hright := hright hrest.1 rfl
        have hop := hrest.2
        generalize evaluateFlat p names (Formula.text t.right) = y at hright hop
        generalize Formula.rational? names t.right = r at hright
        cases hright with
        | divisionByZero => exact .divisionByZero
        | @value w hw => exact op.denotes hw hop

theorem isNumber_of_ofArithmetic {r : Except ArithmeticFault Decimal} {v : Value}
    (h : ofArithmetic r = .ok v) : ∃ x, v = .number x := by
  rcases r with f | x
  · cases h
  · exact ⟨x, (Except.ok.inj h).symm⟩

/-- Operations give numbers. -/
theorem Operation.isNumber_of_apply {op : Operation} {v w u : Value} (h : op.apply p v w = .ok u) :
    ∃ x, u = .number x := by
  cases op with
  | add => exact isNumber_of_ofArithmetic h
  | sub => exact isNumber_of_ofArithmetic h
  | mul => exact isNumber_of_ofArithmetic h
  | div =>
    rw [Operation.apply] at h
    split at h
    · cases h
    · cases h
    · exact isNumber_of_ofArithmetic h

/-- Signs give numbers. -/
theorem isNumber_of_signed {negative : Bool} {gap : Blanks} {o : Operand} {v : Value}
    (hparen : (mask (Operand.signed negative gap o).text).contains ')' = false)
    (hmain : mainOperator? (mask (Operand.signed negative gap o).text) = none)
    (h : evaluateFlat p names (Operand.signed negative gap o).text = .ok v) :
    ∃ x, v = .number x := by
  rcases evaluateFlat_sign negative gap o hparen hmain with ⟨-, _, _, n, -, -, -, hread⟩ | hsign
  · exact isNumber_of_ofArithmetic ((hread p names).symm.trans h)
  · rw [hsign] at h
    rcases ho : evaluateFlat p names o.text with f | w
    · rw [ho] at h
      cases h
    · rw [ho] at h
      cases negative with
      | false => exact ⟨w.toNumber, (Except.ok.inj h).symm⟩
      | true => exact isNumber_of_ofArithmetic h

/-- Only of a single word can the value be anything but a number. -/
theorem isNumber_of_evaluateFlat {s : Formula} (hs : Formula.IsFlat s) {v : Value}
    (h : evaluateFlat p names (Formula.text s) = .ok v) :
    (∃ x, v = .number x) ∨ ∃ l, s = .single (.leaf l) ∧ l.value names = .ok v := by
  have hparen := not_closing_of_flat hs
  have hmain := mainOperator?_formula s hs
  rcases hsplit : s.mainSplit? with _ | ⟨op, t⟩
  · obtain ⟨o, rfl⟩ := Sequence.exists_single_of_mainSplit? hsplit
    rw [hsplit, Option.map_none] at hmain
    match o with
    | .leaf l => exact .inr ⟨l, rfl, (evaluateFlat_leaf l hparen hmain).symm.trans h⟩
    | .signed negative gap o => exact .inl (isNumber_of_signed hparen hmain h)
    | .group _ _ _ => exact (hs _ (List.mem_singleton_self _)).elim
  · have hcut := Formula.cut hs hsplit
    rw [evaluateFlat_split hparen hcut.main] at h
    generalize evaluateFlat p names (Text.trim ((Formula.text s).take _)) = x at h
    generalize evaluateFlat p names (Text.trim ((Formula.text s).drop _)) = y at h
    rcases x with f | w
    · cases h
    rcases y with f | w'
    · cases h
    exact .inl (Operation.isNumber_of_apply h)

/-- The text of a formula is computed, and nothing is bound. -/
theorem evaluateExpression_text {env : Environment} (henv : env.precision = .ok p)
    (context : Context) (s : Formula) (front back : Blanks) :
    evaluateExpression env context
        (String.ofList (front.chars ++ Formula.text s ++ back.chars)) =
      (evaluateArithmetic p context.values (Formula.text s)).map fun v => (v, context) := by
  have hstatement : Statement.ofText
      (String.ofList (front.chars ++ Formula.text s ++ back.chars)) (Formula.text s) =
        .ok (.compute (Formula.text s)) := by
    rw [Statement.ofText, occurrences_equals]
  rw [evaluateExpression, (Formula.tight s).isBlankText, if_neg Bool.false_ne_true, henv]
  simp only [String.toList_ofList, (Formula.tight s).trim front.blank back.blank, hstatement,
    Statement.run]
  cases evaluateArithmetic p context.values (Formula.text s) with
  | error f => rfl
  | ok v => rfl

/-- **Where nothing rounds, the ladder is numerically conventional.**  If every decimal operation of
the evaluation of a flat formula is exact, the expression computes the rational that the formula has
by convention, and binds nothing.  It divides by zero exactly if there is no such rational.  The
value is a number unless the formula is a single word, whose own value it then is. -/
theorem evaluateExpression_exact {env : Environment} (henv : env.precision = .ok p)
    (context : Context) (hnames : NamesFinite context.values) (s : Formula)
    (hs : Formula.IsFlat s) (hbound : Formula.IsBound context.values s) (front back : Blanks)
    (hexact : ∀ step ∈ steps p context.values (Formula.text s), step.IsExact p) :
    (∀ q, Formula.rational? context.values s = some q →
      ∃ v, evaluateExpression env context
          (String.ofList (front.chars ++ Formula.text s ++ back.chars)) = .ok (v, context) ∧
        v.toNumber.IsFinite ∧ v.toNumber.toRat = q ∧
        ((∃ x, v = .number x) ∨ ∃ l, s = .single (.leaf l) ∧ l.value context.values = .ok v)) ∧
    (evaluateExpression env context
        (String.ofList (front.chars ++ Formula.text s ++ back.chars)) = .error .divisionByZero ↔
      Formula.rational? context.values s = none) := by
  have hdenotes := denotes_evaluateFlat hnames s hs hbound hexact
  have hnumber : ∀ v, evaluateFlat p context.values (Formula.text s) = .ok v →
      (∃ x, v = .number x) ∨ ∃ l, s = .single (.leaf l) ∧ l.value context.values = .ok v :=
    fun v => isNumber_of_evaluateFlat hs
  have hflat : evaluateArithmetic p context.values (Formula.text s) =
      evaluateFlat p context.values (Formula.text s) := by
    have hpadded : evaluateArithmetic p context.values
        (Blanks.none.chars ++ Formula.text s ++ Blanks.none.chars) = _ :=
      evaluateArithmetic_flat hs .none .none
    rwa [show Blanks.none.chars = [] from rfl, List.nil_append, List.append_nil] at hpadded
  rw [evaluateExpression_text henv context s front back, hflat]
  generalize evaluateFlat p context.values (Formula.text s) = x at hdenotes hnumber
  generalize Formula.rational? context.values s = q at hdenotes
  cases hdenotes with
  | divisionByZero =>
    refine ⟨?_, ?_⟩
    · intro q hq
      cases hq
    · exact ⟨fun _ => rfl, fun _ => rfl⟩
  | @value v hfinite =>
    refine ⟨?_, ?_⟩
    · rintro q ⟨⟩
      exact ⟨v, rfl, hfinite, rfl, hnumber v rfl⟩
    · constructor
      · intro h
        cases h
      · intro h
        cases h

/-- The formula `x / 4 * 2 - -1`. -/
def exactFormula : Formula :=
  .link (.leaf (.name ['x'] (Eq.refl true))) .space .div .space <|
    .link (.leaf (.number ['4'] (Eq.refl true))) .space .mul .space <|
      .link (.leaf (.number ['2'] (Eq.refl true))) .space .sub .space <|
        .single (.signed true .none (.leaf (.number ['1'] (Eq.refl true))))

/-- Facts that bind `x` to a whole number. -/
def exactFacts : Context := .facts ⟨[("x", .int 10)]⟩

/-- The ladder takes the text apart at the minus, then at the multiplication, and the sign is read
with its numeral. -/
theorem evaluateExpression_exactSample :
    ∃ v, evaluateExpression [] exactFacts "x / 4 * 2 - -1" = .ok (v, exactFacts) ∧
      v.toNumber.toRat = 6 := by
  have henv : Environment.precision [] = .ok ⟨28, by decide, by decide⟩ := rfl
  have hsteps : steps ⟨28, by decide, by decide⟩ exactFacts.values (Formula.text exactFormula) =
      [.read ⟨false, 4, 0⟩, .binary .div (.finite false 10 0) (.finite false 4 0),
        .read ⟨false, 2, 0⟩, .binary .mul (.finite false 25 (-1)) (.finite false 2 0),
        .read ⟨true, 1, 0⟩, .binary .sub (.finite false 50 (-1)) (.finite true 1 0)] := by
    decide +kernel
  have hexact : ∀ step ∈ steps ⟨28, by decide, by decide⟩ exactFacts.values
      (Formula.text exactFormula), step.IsExact ⟨28, by decide, by decide⟩ := by
    intro step hstep
    rw [hsteps] at hstep
    simp only [List.mem_cons, List.not_mem_nil, or_false] at hstep
    rcases hstep with rfl | rfl | rfl | rfl | rfl | rfl
    · exact ⟨.finite false 4 0, by decide +kernel, Decimal.isFinite_finite .., rfl⟩
    · refine ⟨.finite false 25 (-1), by decide +kernel, Decimal.isFinite_finite .., ?_⟩
      norm_num [Step.rational, Operation.rational, Decimal.toRat, Decimal.toSigned]
    · exact ⟨.finite false 2 0, by decide +kernel, Decimal.isFinite_finite .., rfl⟩
    · refine ⟨.finite false 50 (-1), by decide +kernel, Decimal.isFinite_finite .., ?_⟩
      norm_num [Step.rational, Operation.rational, Decimal.toRat, Decimal.toSigned]
    · exact ⟨.finite true 1 0, by decide +kernel, Decimal.isFinite_finite .., rfl⟩
    · refine ⟨.finite false 60 (-1), by decide +kernel, Decimal.isFinite_finite .., ?_⟩
      norm_num [Step.rational, Operation.rational, Decimal.toRat, Decimal.toSigned]
  have hnames : NamesFinite exactFacts.values := by
    intro name x hx
    obtain ⟨d, hd, hvalue⟩ := Context.exists_of_values hx
    simp only [exactFacts, Context.lookup, Facts.get?, List.lookup] at hd
    split at hd
    · cases hd
      cases hvalue
      exact Decimal.isFinite_finite ..
    · cases hd
  have hflat : Formula.IsFlat exactFormula := by
    simp [Formula.IsFlat, exactFormula, Sequence.operands, Operand.IsFlat]
  have hbound : Formula.IsBound exactFacts.values exactFormula := by
    simp only [Formula.IsBound, exactFormula, Formula.leaves, Operand.leaves, List.cons_append,
      List.nil_append, List.forall_mem_cons, List.not_mem_nil, Leaf.IsBound]
    exact ⟨fun _ => ⟨_, rfl⟩, trivial, trivial, trivial, fun _ h => h.elim⟩
  have hrational : Formula.rational? exactFacts.values exactFormula = some 6 := by
    have hread : Numeral.read? ['4'] = some ⟨false, 4, 0⟩ ∧
        Numeral.read? ['2'] = some ⟨false, 2, 0⟩ ∧ Numeral.read? ['1'] = some ⟨false, 1, 0⟩ := by
      decide +kernel
    have hname : Literal.word? ['x'] = none ∧
        exactFacts.values (String.ofList ['x']) = .ok (some (.number (.finite false 10 0))) :=
      ⟨by decide, rfl⟩
    simp only [Formula.rational?, exactFormula, Formula.rationals, Operand.rational?, Leaf.rational,
      hread, hname, Sequence.conventional, Sequence.head, Sequence.tail, Sequence.products,
      Operation.isAdditive, Sequence.leftToRight]
    norm_num [Operation.rational?, Operation.rational, Numeral.toRat, Decimal.toRat,
      Decimal.toSigned, Value.toNumber]
  obtain ⟨v, hv, -, hrat, -⟩ := (evaluateExpression_exact henv exactFacts hnames exactFormula hflat
    hbound .none .none hexact).1 6 hrational
  exact ⟨v, hv, hrat⟩

end Expression

end BusinessRules

import BusinessRules.Proofs.Decimal.Addition
import BusinessRules.Proofs.Decimal.Division
import BusinessRules.Proofs.Expression.Grammar

/-!
# What arithmetic trees mean

The value of a tree is given on the tree alone: words have values, a sign and an operation are one
decimal operation each at the precision in force, and a group has the value of its inside if that
value has a literal.  Values are compared by the numbers that they denote, since one number has
many decimals; every operation respects this, and results always fit the precision.

## Main definitions

* `Leaf.value`, `Operand.value`, `Formula.value`: the values of trees
* `Formula.outcome`: the value, except that a fault inside a group comes first
* `Alike`: values that differ at most in how a number is written
* `Operand.Fits`, `NamesFit`: numbers that the precision can represent

## Main statements

* `Operation.combine_congr`: operations respect how numbers are written
* `value_error_of_groupFault?`: a fault inside a group is a fault of the tree
-/

namespace BusinessRules

/-! ## Agreement of outcomes -/

namespace Agree

variable {ε α β γ : Type*} {E : ε → ε → Prop} {R : α → β → Prop} {S : β → γ → Prop}

theorem refl {R : α → α → Prop} (hE : ∀ e, E e e) (hR : ∀ a, R a a) (x : Except ε α) :
    Agree E R x x := by
  cases x with
  | error e => exact .error (hE e)
  | ok a => exact .ok (hR a)

theorem symm {E' : ε → ε → Prop} {R' : β → α → Prop} (hE : ∀ e e', E e e' → E' e' e)
    (hR : ∀ a b, R a b → R' b a) {x : Except ε α} {y : Except ε β} (h : Agree E R x y) :
    Agree E' R' y x := by
  cases h with
  | error he => exact .error (hE _ _ he)
  | ok hr => exact .ok (hR _ _ hr)

theorem mono {E' : ε → ε → Prop} {R' : α → β → Prop} (hE : ∀ e e', E e e' → E' e e')
    (hR : ∀ a b, R a b → R' a b) {x : Except ε α} {y : Except ε β} (h : Agree E R x y) :
    Agree E' R' x y := by
  cases h with
  | error he => exact .error (hE _ _ he)
  | ok hr => exact .ok (hR _ _ hr)

theorem trans {T : α → γ → Prop} (hT : ∀ a b c, R a b → S b c → T a c) {x : Except ε α}
    {y : Except ε β} {z : Except ε γ} (hxy : Agree Eq R x y) (hyz : Agree Eq S y z) :
    Agree Eq T x z := by
  cases hxy with
  | error he =>
    cases hyz with
    | error he' => exact .error (he.trans he')
  | ok hr =>
    cases hyz with
    | ok hs => exact .ok (hT _ _ _ hr hs)

end Agree

namespace Value

/-- Whether a value has a literal: it is no collection, and no text with both quote marks. -/
def hasLiteral : Value → Bool
  | .list _ => false
  | .text s => !(s.toList.contains '\'' && s.toList.contains '"')
  | _ => true

theorem exists_format_of_hasLiteral {v : Value} (h : v.hasLiteral = true) :
    ∃ cs, Literal.format v = .ok cs := by
  cases v with
  | null => exact ⟨_, rfl⟩
  | bool b => cases b <;> exact ⟨_, rfl⟩
  | number n => exact ⟨_, rfl⟩
  | list items => cases h
  | text s =>
    simp only [Literal.format, Literal.quoted?]
    by_cases hsingle : s.toList.contains '\'' = true
    · by_cases hdouble : s.toList.contains '"' = true
      · rw [hasLiteral, hsingle, hdouble] at h
        cases h
      · rw [hsingle, Bool.eq_false_iff.2 hdouble]
        exact ⟨_, rfl⟩
    · rw [Bool.eq_false_iff.2 hsingle]
      exact ⟨_, rfl⟩

theorem exists_error_of_not_hasLiteral {v : Value} (h : v.hasLiteral = false) :
    ∃ f, Literal.format v = .error f := by
  cases v with
  | null => cases h
  | bool b => cases h
  | number n => cases h
  | list items => exact ⟨_, rfl⟩
  | text s =>
    rw [hasLiteral, Bool.not_eq_false', Bool.and_eq_true] at h
    simp only [Literal.format, Literal.quoted?, h.1, h.2]
    exact ⟨_, rfl⟩

end Value

namespace Expression

open Text (Blanks)

/-! ## Values of trees -/

/-- The value of a word. -/
def Leaf.value (names : Names) : Leaf → Outcome Value
  | number chars _ =>
    match (Numeral.read? chars).bind Numeral.toDecimal? with
    | some d => .ok (.number d)
    | none => .error (.arithmetic .invalidOperation)
  | quoted _ chars _ _ => .ok (.text (String.ofList chars))
  | name chars _ =>
    match Literal.word? chars with
    | some v => .ok v
    | none =>
      match names (String.ofList chars) with
      | .ok (some v) => .ok v
      | .ok none => .error (.unresolved (String.ofList chars))
      | .error f => .error f

/-- The value of an operation between two values: one decimal operation on their numbers. -/
def Operation.apply (p : Precision) : Operation → Value → Value → Outcome Value
  | .add, v, w => ofArithmetic (v.toNumber.add p w.toNumber)
  | .sub, v, w => ofArithmetic (v.toNumber.sub p w.toNumber)
  | .mul, v, w => ofArithmetic (v.toNumber.mul p w.toNumber)
  | .div, v, w =>
    match w.toNumber.equalsZero with
    | .error f => .error (.arithmetic f)
    | .ok true => .error .divisionByZero
    | .ok false => ofArithmetic (v.toNumber.div p w.toNumber)

/-- The outcome of an operation between two outcomes.  A fault of the left one comes first. -/
def Operation.combine (p : Precision) (op : Operation) (x y : Outcome Value) : Outcome Value :=
  match x with
  | .error f => .error f
  | .ok v =>
    match y with
    | .error f => .error f
    | .ok w => op.apply p v w

/-- The outcome of a sign in front of an outcome.  A plus only takes the number. -/
def signedOutcome (p : Precision) (negative : Bool) (x : Outcome Value) : Outcome Value :=
  match x with
  | .error f => .error f
  | .ok v => if negative then ofArithmetic (v.toNumber.neg p) else .ok (.number v.toNumber)

/-- The outcome of a group around an outcome: a value without a literal is a fault. -/
def groupOutcome (x : Outcome Value) : Outcome Value :=
  match x with
  | .error f => .error f
  | .ok v => if v.hasLiteral then .ok v else .error (.ungroupable "")

mutual

/-- The value of an operand. -/
def Operand.value (p : Precision) (names : Names) : Operand → Outcome Value
  | .leaf word => word.value names
  | .signed negative _ operand => signedOutcome p negative (operand.value p names)
  | .group _ inside _ =>
    groupOutcome ((Formula.values p names inside).ladder (Operation.combine p))

/-- The values of the operands of a formula. -/
def Formula.values (p : Precision) (names : Names) : Sequence Operand → Sequence (Outcome Value)
  | .single operand => .single (operand.value p names)
  | .link operand before op after rest =>
    .link (operand.value p names) before op after (Formula.values p names rest)

end

/-- The value of a formula. -/
def Formula.value (p : Precision) (names : Names) (s : Formula) : Outcome Value :=
  (Formula.values p names s).ladder (Operation.combine p)

/-- The fault of an outcome. -/
def fault? : Outcome Value → Option Fault
  | .error f => some f
  | .ok _ => none

mutual

/-- The fault of the group that fails first, when groups are computed before anything else, the
last one to open first. -/
def Operand.groupFault? (p : Precision) (names : Names) : Operand → Option Fault
  | .leaf _ => none
  | .signed _ _ operand => operand.groupFault? p names
  | .group front inside back =>
    (Formula.groupFault? p names inside).or
      (fault? (Operand.value p names (.group front inside back)))

/-- The fault of the group of a formula that fails first. -/
def Formula.groupFault? (p : Precision) (names : Names) : Sequence Operand → Option Fault
  | .single operand => operand.groupFault? p names
  | .link operand _ _ _ rest =>
    (Formula.groupFault? p names rest).or (operand.groupFault? p names)

end

/-- The outcome of a formula whose groups are computed before anything else. -/
def Formula.outcome (p : Precision) (names : Names) (s : Formula) : Outcome Value :=
  match Formula.groupFault? p names s with
  | some f => .error f
  | none => Formula.value p names s

theorem operate_symbol (p : Precision) (op : Operation) (v w : Value) :
    operate p op.symbol v w = op.apply p v w := by
  cases op <;> rfl

/-- The values of the operands stand as the operands do. -/
theorem Formula.values_eq_map (p : Precision) (names : Names) (s : Formula) :
    Formula.values p names s = s.map (Operand.value p names) := by
  induction s with
  | single o => rw [Formula.values, Sequence.map]
  | link o before op after rest ih => rw [Formula.values, Sequence.map, ih]

/-- The value of a formula that is taken apart at an operation. -/
theorem Formula.value_of_mainSplit? (p : Precision) (names : Names) {s : Formula} {op : Operation}
    {t : Sequence.Split Operand} (h : s.mainSplit? = some (op, t)) :
    Formula.value p names s =
      op.combine p (Formula.value p names t.left) (Formula.value p names t.right) := by
  simp only [Formula.value, Formula.values_eq_map]
  exact Sequence.ladder_map_of_mainSplit? _ _ h

theorem Formula.value_single (p : Precision) (names : Names) (o : Operand) :
    Formula.value p names (.single o) = o.value p names := by
  rw [Formula.value, Formula.values, Sequence.ladder_single]

/-! ## Faults inside groups -/

/-- An operand without a value leaves the whole sequence without one. -/
theorem ladder_combine_error (p : Precision) {s : Sequence (Outcome Value)}
    (h : ∃ f, .error f ∈ s.operands) : ∃ g, s.ladder (Operation.combine p) = .error g := by
  induction hn : s.size using Nat.strong_induction_on generalizing s with
  | _ n ih =>
    obtain ⟨f, hf⟩ := h
    rcases hs : s.mainSplit? with _ | ⟨op, t⟩
    · obtain ⟨x, rfl⟩ := Sequence.exists_single_of_mainSplit? hs
      rw [Sequence.operands, List.mem_singleton] at hf
      exact ⟨f, by rw [Sequence.ladder_single, hf]⟩
    · have hlt := Sequence.size_lt_of_mainSplit? hs
      rw [Sequence.ladder_of_mainSplit? _ hs]
      rw [Sequence.eq_join_of_mainSplit? hs, Sequence.Split.join, Sequence.operands_join,
        List.mem_append] at hf
      rcases hf with hf | hf
      · obtain ⟨g, hg⟩ := ih _ (hn ▸ hlt.1) ⟨f, hf⟩ rfl
        exact ⟨g, by rw [hg, Operation.combine]⟩
      · obtain ⟨g, hg⟩ := ih _ (hn ▸ hlt.2) ⟨f, hf⟩ rfl
        rw [hg]
        cases t.left.ladder (Operation.combine p) with
        | error f' => exact ⟨f', rfl⟩
        | ok v => exact ⟨g, rfl⟩

theorem fault?_eq_some {x : Outcome Value} {f : Fault} (h : fault? x = some f) : x = .error f := by
  cases x with
  | error g =>
    cases h
    rfl
  | ok v => cases h

mutual

theorem Operand.value_error_of_groupFault? (p : Precision) (names : Names) : (o : Operand) →
    {f : Fault} → o.groupFault? p names = some f → ∃ g, o.value p names = .error g
  | .leaf _, _, h => by cases h
  | .signed negative _ o, _, h => by
    obtain ⟨g, hg⟩ := Operand.value_error_of_groupFault? p names o h
    exact ⟨g, by rw [Operand.value, hg, signedOutcome]⟩
  | .group front inside back, f, h => by
    rw [Operand.groupFault?, Option.or_eq_some_iff] at h
    rcases h with h | ⟨-, h⟩
    · obtain ⟨g, hg⟩ := Formula.operand_error_of_groupFault? p names inside h
      obtain ⟨g', hg'⟩ := ladder_combine_error p ⟨g, hg⟩
      exact ⟨g', by rw [Operand.value, hg', groupOutcome]⟩
    · exact ⟨f, fault?_eq_some h⟩

theorem Formula.operand_error_of_groupFault? (p : Precision) (names : Names) :
    (s : Sequence Operand) → {f : Fault} → Formula.groupFault? p names s = some f →
      ∃ g, .error g ∈ (Formula.values p names s).operands
  | .single o, _, h => by
    obtain ⟨g, hg⟩ := Operand.value_error_of_groupFault? p names o h
    exact ⟨g, by rw [Formula.values, Sequence.operands, hg]; exact List.mem_singleton_self _⟩
  | .link o _ _ _ rest, _, h => by
    rw [Formula.values, Sequence.operands]
    rw [Formula.groupFault?, Option.or_eq_some_iff] at h
    rcases h with h | ⟨-, h⟩
    · obtain ⟨g, hg⟩ := Formula.operand_error_of_groupFault? p names rest h
      exact ⟨g, List.mem_cons_of_mem _ hg⟩
    · obtain ⟨g, hg⟩ := Operand.value_error_of_groupFault? p names o h
      exact ⟨g, by rw [hg]; exact List.mem_cons_self⟩

end

/-- **A fault inside a group is a fault of the tree.** -/
theorem Formula.value_error_of_groupFault? {p : Precision} {names : Names} {s : Formula} {f : Fault}
    (h : Formula.groupFault? p names s = some f) : ∃ g, Formula.value p names s = .error g := by
  obtain ⟨g, hg⟩ := Formula.operand_error_of_groupFault? p names s h
  exact ladder_combine_error p ⟨g, hg⟩

/-- Outcome and value are values together, and then the same. -/
theorem Formula.outcome_ok_iff {p : Precision} {names : Names} {s : Formula} {v : Value} :
    Formula.outcome p names s = .ok v ↔ Formula.value p names s = .ok v := by
  rw [Formula.outcome]
  rcases hf : Formula.groupFault? p names s with _ | f
  · rfl
  · obtain ⟨g, hg⟩ := Formula.value_error_of_groupFault? hf
    simp [hg]

/-! ## Values up to the way numbers are written -/

/-- Two values that differ at most in how a number is written. -/
def Alike (v w : Value) : Prop :=
  v = w ∨ ∃ x y, v = .number x ∧ w = .number y ∧ Decimal.Same x y

/-- Alike values whose numbers the precision can represent. -/
structure Close (p : Precision) (v w : Value) : Prop where
  alike : Alike v w
  left : v.toNumber.Fits p
  right : w.toNumber.Fits p

namespace Close

variable {p : Precision} {u v w : Value}

theorem refl (h : v.toNumber.Fits p) : Close p v v := ⟨.inl rfl, h, h⟩

theorem same (h : Close p v w) : Decimal.Same v.toNumber w.toNumber := by
  rcases h.alike with rfl | ⟨x, y, rfl, rfl, hxy⟩
  · exact .refl h.left.isFinite
  · exact hxy

theorem symm (h : Close p v w) : Close p w v := by
  refine ⟨?_, h.right, h.left⟩
  rcases h.alike with rfl | ⟨x, y, rfl, rfl, hxy⟩
  · exact .inl rfl
  · exact .inr ⟨y, x, rfl, rfl, hxy.symm⟩

theorem trans (huv : Close p u v) (hvw : Close p v w) : Close p u w := by
  refine ⟨?_, huv.left, hvw.right⟩
  rcases huv.alike with rfl | ⟨x, y, rfl, rfl, hxy⟩
  · exact hvw.alike
  · rcases hvw.alike with rfl | ⟨x', y', h, rfl, hxy'⟩
    · exact .inr ⟨x, y, rfl, rfl, hxy⟩
    · cases h
      exact .inr ⟨x, y', rfl, rfl, hxy.trans hxy'⟩

theorem number {x y : Decimal} (hx : x.Fits p) (hy : y.Fits p) (h : x.toRat = y.toRat) :
    Close p (.number x) (.number y) :=
  ⟨.inr ⟨x, y, rfl, rfl, hx.isFinite, hy.isFinite, h⟩, hx, hy⟩

theorem hasLiteral (h : Close p v w) : v.hasLiteral = w.hasLiteral := by
  rcases h.alike with rfl | ⟨x, y, rfl, rfl, -⟩
  · rfl
  · rfl

end Close

theorem agree_close_trans {p : Precision} {x y z : Outcome Value} (hxy : Agree Eq (Close p) x y)
    (hyz : Agree Eq (Close p) y z) : Agree Eq (Close p) x z :=
  hxy.trans (fun _ _ _ huv hvw => huv.trans hvw) hyz

theorem ofArithmetic_congr {p : Precision} {x y : Except ArithmeticFault Decimal}
    (h : Agree Eq Decimal.Same x y) (hx : ∀ z, x = .ok z → z.Fits p)
    (hy : ∀ z, y = .ok z → z.Fits p) : Agree Eq (Close p) (ofArithmetic x) (ofArithmetic y) := by
  cases h with
  | error he => exact .error (congrArg Fault.arithmetic he)
  | ok hz => exact .ok (.number (hx _ rfl) (hy _ rfl) hz.toRat_eq)

/-- Operations depend on the numbers of the values alone, and their results fit. -/
theorem Operation.apply_same {p : Precision} (op : Operation) {v v' w w' : Value}
    (hl : Decimal.Same v.toNumber v'.toNumber) (hr : Decimal.Same w.toNumber w'.toNumber) :
    Agree Eq (Close p) (op.apply p v w) (op.apply p v' w') := by
  cases op with
  | add =>
    exact ofArithmetic_congr (Decimal.add_congr p hl hr)
      (fun _ h => Decimal.add_fits hl.left hr.left h)
      (fun _ h => Decimal.add_fits hl.right hr.right h)
  | sub =>
    exact ofArithmetic_congr (Decimal.sub_congr p hl hr)
      (fun _ h => Decimal.sub_fits hl.left hr.left h)
      (fun _ h => Decimal.sub_fits hl.right hr.right h)
  | mul =>
    exact ofArithmetic_congr (Decimal.mul_congr p hl hr)
      (fun _ h => Decimal.mul_fits hl.left hr.left h)
      (fun _ h => Decimal.mul_fits hl.right hr.right h)
  | div =>
    rw [Operation.apply, Operation.apply, Decimal.equalsZero_congr hr]
    cases w'.toNumber.equalsZero with
    | error f => exact .error rfl
    | ok zero =>
      cases zero with
      | true => exact .error rfl
      | false =>
        exact ofArithmetic_congr (Decimal.div_congr p hl hr)
          (fun _ h => Decimal.div_fits hl.left hr.left h)
          (fun _ h => Decimal.div_fits hl.right hr.right h)

/-- **Operations on outcomes respect how numbers are written.** -/
theorem Operation.combine_congr {p : Precision} (op : Operation) {x x' y y' : Outcome Value}
    (hx : Agree Eq (Close p) x x') (hy : Agree Eq (Close p) y y') :
    Agree Eq (Close p) (op.combine p x y) (op.combine p x' y') := by
  cases hx with
  | error he => exact .error he
  | ok hv =>
    cases hy with
    | error he => exact .error he
    | ok hw => exact op.apply_same hv.same hw.same

theorem signedOutcome_congr {p : Precision} (negative : Bool) {x x' : Outcome Value}
    (hx : Agree Eq (Close p) x x') :
    Agree Eq (Close p) (signedOutcome p negative x) (signedOutcome p negative x') := by
  cases hx with
  | error he => exact .error he
  | ok hv =>
    have hsame := hv.same
    cases negative with
    | true =>
      exact ofArithmetic_congr (Decimal.neg_congr p hsame)
        (fun _ h => Decimal.neg_fits hsame.left h) (fun _ h => Decimal.neg_fits hsame.right h)
    | false => exact .ok (.number hv.left hv.right hsame.toRat_eq)

/-! ## Numbers that the precision can represent -/

mutual

/-- The words of an operand, from left to right. -/
def Operand.leaves : Operand → List Leaf
  | .leaf word => [word]
  | .signed _ _ operand => operand.leaves
  | .group _ inside _ => Formula.leaves inside

/-- The words of a formula, from left to right. -/
def Formula.leaves : Sequence Operand → List Leaf
  | .single operand => operand.leaves
  | .link operand _ _ _ rest => operand.leaves ++ Formula.leaves rest

end

/-- A word whose number, if it stands for one, the precision can represent. -/
def Leaf.Fits (p : Precision) : Leaf → Prop
  | number chars _ => ∃ d, (Numeral.read? chars).bind Numeral.toDecimal? = some d ∧ d.Fits p
  | quoted _ chars _ _ => (Value.numberOfText (String.ofList chars)).Fits p
  | name _ _ => True

/-- Names that stand for values whose numbers the precision can represent. -/
def NamesFit (p : Precision) (names : Names) : Prop :=
  ∀ name v, names name = .ok (some v) → v.toNumber.Fits p

/-- An operand whose numbers the precision can represent. -/
def Operand.Fits (p : Precision) (o : Operand) : Prop := ∀ l ∈ o.leaves, l.Fits p

/-- A formula whose numbers the precision can represent. -/
def Formula.Fits (p : Precision) (s : Formula) : Prop := ∀ l ∈ Formula.leaves s, l.Fits p

theorem fits_zero (p : Precision) : Decimal.zero.Fits p := by
  have hleast := (Decimal.leastExponent_bounds p).2
  simp only [Decimal.minExponent] at hleast
  refine Decimal.fits_of_short false (by positivity) (by omega) ?_
  rw [Decimal.adjusted, Decimal.digitCount_zero]
  decide

theorem Formula.leaves_join (s : Formula) (before : Blanks) (op : Operation) (after : Blanks)
    (t : Formula) :
    Formula.leaves (s.join before op after t) = Formula.leaves s ++ Formula.leaves t := by
  induction s with
  | single o => rfl
  | link o b o' c rest ih =>
    rw [Sequence.join, Formula.leaves, ih, Formula.leaves, List.append_assoc]

theorem Formula.fits_join {p : Precision} (s : Formula) (before : Blanks) (op : Operation)
    (after : Blanks) (t : Formula) : Formula.Fits p (s.join before op after t) ↔
      Formula.Fits p s ∧ Formula.Fits p t := by
  rw [Formula.Fits, Formula.leaves_join, List.forall_mem_append]
  rfl

end Expression

end BusinessRules

import BusinessRules.Proofs.Expression.Stray
import BusinessRules.Proofs.Value.Shown

/-!
# Which texts without groups are accepted

Whether a text is accepted is never asked: the evaluator looks for operators character by
character, and what is left of the text at the end is a literal, a name, or neither.  For texts
without groups this comes to the grammar.  What has a value is put together from words with signs
and operations, since every cut of the evaluator is an operation or a sign.  And the text of a
formula is cut where the formula is taken apart, so that only arithmetic and unbound names can fail.

Only names can be anything but words of the grammar, so all bound names are required to be
identifiers: a context may bind the name `1 2`, which then has a value.

## Main definitions

* `Grammatical`: a text of the grammar without groups
* `Accepted`: an outcome that finds no fault with the text

## Main statements

* `grammatical_of_evaluateFlat`: only grammatical texts have values
* `accepted_of_flat`: grammatical texts are accepted
* `evaluateExpression_grammatical`: both for expressions
-/

namespace BusinessRules.Expression

open Text (Blanks Tight)

/-! ## Grammatical texts -/

/-- A text that, without the blanks around it, is the text of a formula without groups: operands
with operations between them, an operand being a word behind any number of signs. -/
def Grammatical (cs : List Char) : Prop :=
  ∃ s : Formula, Formula.IsFlat s ∧ Formula.text s = Text.trim cs

/-- A formula with one more sign in front of it. -/
def Formula.sign (negative : Bool) (gap : Blanks) : Formula → Formula
  | .single o => .single (.signed negative gap o)
  | .link o before op after rest => .link (.signed negative gap o) before op after rest

theorem Formula.text_sign (negative : Bool) (gap : Blanks) (s : Formula) :
    Formula.text (Formula.sign negative gap s) =
      signSymbol negative :: gap.chars ++ Formula.text s := by
  cases s with
  | single o => rfl
  | link o before op after rest => simp [Formula.sign, Formula.text, Operand.text]

theorem Formula.sign_flat {s : Formula} (hs : Formula.IsFlat s) (negative : Bool) (gap : Blanks) :
    Formula.IsFlat (Formula.sign negative gap s) := by
  cases s with
  | single o => exact Formula.isFlat_single (hs o (List.mem_singleton_self o))
  | link o before op after rest =>
    have hparts : o.IsFlat ∧ ∀ o' ∈ rest.operands, o'.IsFlat := List.forall_mem_cons.1 hs
    intro o' ho'
    rcases List.mem_cons.1 ho' with rfl | ho'
    · exact hparts.1
    · exact hparts.2 o' ho'

theorem exists_operation {c : Char} (h : operators.contains c = true) :
    ∃ op : Operation, op.symbol = c := by
  rcases mem_operators h with rfl | rfl | rfl | rfl
  · exact ⟨.add, rfl⟩
  · exact ⟨.sub, rfl⟩
  · exact ⟨.mul, rfl⟩
  · exact ⟨.div, rfl⟩

theorem exists_sign_of_signed? {cs rest : List Char} {sign : Char}
    (h : signed? cs = some (sign, rest)) :
    ∃ negative, cs = signSymbol negative :: rest := by
  unfold signed? at h
  split at h
  · split at h
    · next hsign =>
      cases h
      rw [Bool.or_eq_true, decide_eq_true_eq, decide_eq_true_eq] at hsign
      rcases hsign with rfl | rfl
      · exact ⟨false, rfl⟩
      · exact ⟨true, rfl⟩
    · cases h
  · cases h

namespace Grammatical

variable {cs rest : List Char}

theorem trim_iff : Grammatical (Text.trim cs) ↔ Grammatical cs := by
  rw [Grammatical, Text.trim_trim, Grammatical]

theorem of_leaf {l : Leaf} (h : l.text = Text.trim cs) : Grammatical cs :=
  ⟨.single (.leaf l), Formula.isFlat_single trivial, h⟩

/-- A text is grammatical if both sides of an operator in it are. -/
theorem of_operation {op : Char} {i : Nat} (h : cs[i]? = some op)
    (hop : operators.contains op = true) (hleft : Grammatical (cs.take i))
    (hright : Grammatical (cs.drop (i + 1))) : Grammatical cs := by
  obtain ⟨op, rfl⟩ := exists_operation hop
  obtain ⟨s, hs, hsleft⟩ := hleft
  obtain ⟨t, ht, htright⟩ := hright
  obtain ⟨front, before, hfront, hbefore, hcutleft⟩ := Text.exists_trim (cs.take i)
  obtain ⟨after, back, hafter, hback, hcutright⟩ := Text.exists_trim (cs.drop (i + 1))
  -- The blanks next to the operator are those of the operation, the others are trimmed off.
  refine ⟨s.join ⟨before, hbefore⟩ op ⟨after, hafter⟩ t, ?_, ?_⟩
  · rw [Formula.IsFlat, Sequence.operands_join]
    exact List.forall_mem_append.2 ⟨hs, ht⟩
  · have hcs : cs = front ++ Formula.text (s.join ⟨before, hbefore⟩ op ⟨after, hafter⟩ t) ++
        back := by
      rw [Formula.text_join, hsleft, htright]
      conv => lhs; rw [eq_append_of_getElem? h, hcutleft, hcutright]
      simp
    conv => rhs; rw [hcs]
    rw [(Formula.tight _).trim hfront hback]

/-- A text is grammatical if what follows its sign is. -/
theorem of_signed {sign : Char} (h : signed? cs = some (sign, rest)) (hrest : Grammatical rest) :
    Grammatical cs := by
  obtain ⟨negative, rfl⟩ := exists_sign_of_signed? h
  obtain ⟨s, hs, htext⟩ := hrest
  obtain ⟨gap, back, hgap, hback, hcut⟩ := Text.exists_trim rest
  refine ⟨Formula.sign negative ⟨gap, hgap⟩ s, Formula.sign_flat hs negative _, ?_⟩
  have hcs : signSymbol negative :: rest =
      Blanks.none.chars ++ Formula.text (Formula.sign negative ⟨gap, hgap⟩ s) ++ back := by
    rw [Formula.text_sign, htext]
    conv => lhs; rw [hcut]
    simp [Blanks.none]
  rw [hcs, (Formula.tight _).trim Blanks.none.blank hback]

end Grammatical

/-! ## What has a value is grammatical -/

/-- Names that are identifiers, if they are bound. -/
def NamesIdentifiers (names : Names) : Prop :=
  ∀ name v, names name = .ok (some v) → isIdentifier name.toList = true

/-- Facts that bind identifiers only. -/
theorem namesIdentifiers_of_facts {f : Facts}
    (hkeys : ∀ name d, f.get? name = some d → isIdentifier name.toList = true) :
    NamesIdentifiers (Context.facts f).values := by
  intro name v hv
  obtain ⟨d, hd, -⟩ := Context.exists_of_values hv
  exact hkeys name d (Except.ok.inj hd)

variable {p : Precision} {names : Names}

theorem grammatical_of_resolve (hnames : NamesIdentifiers names) {cs : List Char} {v : Value}
    (h : resolve names cs = .ok v) : Grammatical cs := by
  rw [resolve] at h
  split at h
  · cases h
  · next w hw =>
    have hname := hnames _ w hw
    rw [String.toList_ofList] at hname
    exact .of_leaf (Leaf.name cs hname).tight.trim_self.symm
  · split at h <;> cases h

/-- **Only grammatical texts have values.** -/
theorem grammatical_of_evaluateFlat (hnames : NamesIdentifiers names) {cs : List Char} {v : Value}
    (h : evaluateFlat p names cs = .ok v) : Grammatical cs := by
  fun_induction evaluateFlat p names cs generalizing v with
  | case1 cs hparen => cases h
  | case2 cs hparen op i hop f hleft ih => cases h
  | case3 cs hparen op i hop left hleft f hright ihleft ihright => cases h
  | case4 cs hparen op i hop left hleft right hright ihleft ihright =>
    obtain ⟨hshown, hoperator⟩ := getElem?_of_mainOperator? hop
    have hplace := (quoteAfter_take_mask hshown (isQuote_of_operator hoperator)
      (ne_of_class hoperator (by decide))).2
    exact .of_operation hplace hoperator (Grammatical.trim_iff.1 (ihleft hleft))
      (Grammatical.trim_iff.1 (ihright hright))
  | case5 cs hparen hop hempty => cases h
  | case6 cs hparen hop hempty f hread => cases h
  | case7 cs hparen hop hempty w hread =>
    obtain ⟨l, hl⟩ := exists_leaf_of_read? hread
    exact .of_leaf hl
  | case8 cs hparen hop hempty hread sign rest hsign f hrest ih => cases h
  | case9 cs hparen hop hempty hread sign rest hsign w hrest ih =>
    exact .of_signed hsign (Grammatical.trim_iff.1 (ih hrest))
  | case10 cs hparen hop hempty hread hsign => exact grammatical_of_resolve hnames h

/-! ## What is grammatical is accepted -/

/-- An outcome that finds no fault with the text. -/
def Accepted {α : Type} (x : Outcome α) : Prop :=
  ∀ f, x = .error f → f.kind ≠ .invalidExpression ∧ f.kind ≠ .expressionParse

namespace Accepted

theorem ok {α : Type} (a : α) : Accepted (.ok a : Outcome α) := by
  intro f hf
  cases hf

theorem error {α : Type} {f : Fault} (hkind : f.kind ≠ .invalidExpression)
    (hkind' : f.kind ≠ .expressionParse) : Accepted (.error f : Outcome α) := by
  intro g hg
  cases hg
  exact ⟨hkind, hkind'⟩

theorem arithmetic {α : Type} (f : ArithmeticFault) :
    Accepted (.error (.arithmetic f) : Outcome α) := by
  cases f <;> exact .error (by decide) (by decide)

theorem ofArithmetic (x : Except ArithmeticFault Decimal) : Accepted (ofArithmetic x) := by
  cases x with
  | error f => exact .arithmetic f
  | ok n => exact .ok _

theorem apply (op : Operation) (v w : Value) : Accepted (op.apply p v w) := by
  cases op with
  | add => exact .ofArithmetic _
  | sub => exact .ofArithmetic _
  | mul => exact .ofArithmetic _
  | div =>
    rw [Operation.apply]
    split
    · exact .arithmetic _
    · exact .error (by decide) (by decide)
    · exact .ofArithmetic _

theorem bind {α β : Type} {x : Outcome α} {g : α → Outcome β} (hx : Accepted x)
    (hg : ∀ a, Accepted (g a)) : Accepted (x.bind g) := by
  cases x with
  | error f => exact .error (hx f rfl).1 (hx f rfl).2
  | ok a => exact hg a

theorem map {α β : Type} {x : Outcome α} (hx : Accepted x) (g : α → β) : Accepted (x.map g) := by
  cases x with
  | error f => exact .error (hx f rfl).1 (hx f rfl).2
  | ok a => exact .ok _

theorem combine (op : Operation) {x y : Outcome Value} (hx : Accepted x) (hy : Accepted y) :
    Accepted (op.combine p x y) := by
  rcases x with f | v
  · exact hx
  · rcases y with f | w
    · exact hy
    · exact .apply op v w

theorem applySign (sign : Char) (v : Value) : Accepted (applySign p sign v) := by
  rw [Expression.applySign]
  split
  · exact .ofArithmetic _
  · exact .ok _

/-- Words fail only with numbers out of range and names that have no value. -/
theorem leaf (hnames : ∀ name, Accepted (names name)) (l : Leaf) : Accepted (l.value names) := by
  cases l with
  | number chars reads =>
    rw [Leaf.value]
    split
    · exact .ok _
    · exact .arithmetic _
  | quoted mark chars isMark inside => exact .ok _
  | name chars identifier =>
    rw [Leaf.value]
    split
    · exact .ok _
    · split
      · exact .ok _
      · exact .error FaultKind.noConfusion FaultKind.noConfusion
      · next f hf =>
        have hname := hnames (String.ofList chars) f hf
        exact .error hname.1 hname.2

end Accepted

/-- A sign is accepted in front of what is accepted. -/
theorem accepted_of_signed (negative : Bool) (gap : Blanks) (o : Operand)
    (hparen : (mask (Operand.signed negative gap o).text).contains ')' = false)
    (hmain : mainOperator? (mask (Operand.signed negative gap o).text) = none)
    (ho : Accepted (evaluateFlat p names o.text)) :
    Accepted (evaluateFlat p names (Operand.signed negative gap o).text) := by
  rcases evaluateFlat_sign negative gap o hparen hmain with ⟨-, _, _, n, -, -, -, hread⟩ | hsign
  · rw [hread]
    exact .ofArithmetic _
  · rw [hsign]
    exact ho.bind (.applySign _)

/-- **Grammatical texts are accepted**, if the names are. -/
theorem accepted_of_flat (hnames : ∀ name, Accepted (names name)) (s : Formula)
    (hs : Formula.IsFlat s) : Accepted (evaluateFlat p names (Formula.text s)) := by
  -- The induction is on the length of the text, as the sides of an operation and what follows a
  -- sign have shorter texts.
  induction hn : (Formula.text s).length using Nat.strong_induction_on generalizing s with
  | _ n ih =>
    subst hn
    have hparen := not_closing_of_flat hs
    have hmain := mainOperator?_formula s hs
    rcases hsplit : s.mainSplit? with _ | ⟨op, t⟩
    · obtain ⟨o, rfl⟩ := Sequence.exists_single_of_mainSplit? hsplit
      rw [hsplit, Option.map_none] at hmain
      match o with
      | .leaf l =>
        change Accepted (evaluateFlat p names l.text)
        rw [evaluateFlat_leaf l hparen hmain]
        exact .leaf hnames l
      | .signed negative gap o =>
        have ho : o.IsFlat := hs (.signed negative gap o) List.mem_cons_self
        refine accepted_of_signed negative gap o hparen hmain ?_
        refine ih _ ?_ (.single o) (Formula.isFlat_single ho) rfl
        simp only [Formula.text, Operand.text, List.length_append, List.length_cons]
        omega
      | .group _ _ _ => exact (hs _ (List.mem_singleton_self _)).elim
    · have hcut := Formula.cut hs hsplit
      rw [evaluateFlat_split hparen hcut.main, hcut.left, hcut.right]
      exact .combine op (ih _ hcut.left_lt t.left hcut.left_flat rfl)
        (ih _ hcut.right_lt t.right hcut.right_flat rfl)

/-! ## Expressions -/

theorem accepted_precision (env : Environment) : Accepted env.precision := by
  intro f hf
  rw [Environment.precision] at hf
  split at hf
  · next g hg =>
    cases hf
    simp only [Settings.ofEnvironment] at hg
    split at hg
    · cases hg
    · split at hg
      · cases hg
      · cases hg
        exact ⟨by decide, by decide⟩
  · split at hf
    · cases hf
    · cases hf
      split <;> exact ⟨by decide, by decide⟩

/-- Trimming shows nothing new. -/
theorem mem_mask_of_trim {cs : List Char} {c : Char} (h : c ∈ mask (Text.trim cs)) :
    c ∈ mask cs := by
  obtain ⟨front, back, hmask, -⟩ := mask_trim cs
  rw [hmask]
  exact List.mem_append_left back (List.mem_append_right front h)

/-- Without equals signs, an expression computes its trimmed text and binds nothing. -/
theorem evaluateExpression_compute (env : Environment) (context : Context) {text : String}
    (hblank : Text.isBlankText text = false) (hequals : '=' ∉ mask text.toList) :
    evaluateExpression env context text =
      env.precision.bind fun p =>
        (evaluateArithmetic p context.values (Text.trim text.toList)).map fun v =>
          (v, context) := by
  have hstatement : Statement.ofText text (Text.trim text.toList) =
      .ok (.compute (Text.trim text.toList)) := by
    have hnone : occurrences '=' (mask (Text.trim text.toList)) = [] := by
      rw [List.eq_nil_iff_forall_not_mem]
      intro i hi
      exact hequals (mem_mask_of_trim (List.mem_of_getElem? (mem_occurrences.1 hi)))
    rw [Statement.ofText, hnone]
  rw [evaluateExpression, hblank, if_neg Bool.false_ne_true]
  cases env.precision with
  | error f => rfl
  | ok p =>
    simp only [hstatement, Statement.run, Except.bind]
    cases evaluateArithmetic p context.values (Text.trim text.toList) with
    | error f => rfl
    | ok v => rfl

/-- Without groups and equals signs, an expression is its trimmed text. -/
theorem evaluateExpression_plain (env : Environment) (context : Context) {text : String}
    (hblank : Text.isBlankText text = false) (hgroup : '(' ∉ mask text.toList)
    (hequals : '=' ∉ mask text.toList) :
    evaluateExpression env context text =
      env.precision.bind fun p =>
        (evaluateFlat p context.values (Text.trim text.toList)).map fun v => (v, context) := by
  have hflat : ∀ p, evaluateArithmetic p context.values (Text.trim text.toList) =
      evaluateFlat p context.values (Text.trim text.toList) := by
    intro p
    have hopen : hasGroup (Text.trim text.toList) = false := by
      rw [hasGroup, Bool.eq_false_iff]
      intro h
      exact hgroup (mem_mask_of_trim (by simpa using h))
    rw [evaluateArithmetic, Text.trim_trim, evaluateGroups, hopen, if_neg Bool.false_ne_true]
  simp only [evaluateExpression_compute env context hblank hequals, hflat]

/-- **Texts without groups are accepted exactly by their grammar.**  In facts that bind identifiers
only, let no opening parenthesis and no equals sign show in a text.  If the text is grammatical, its
evaluation finds no fault with it, neither as an invalid expression nor as an unparsable one.  If it
is not, and not blank, it has no value. -/
theorem evaluateExpression_grammatical (env : Environment) {f : Facts}
    (hkeys : ∀ name d, f.get? name = some d → isIdentifier name.toList = true) {text : String}
    (hgroup : '(' ∉ mask text.toList) (hequals : '=' ∉ mask text.toList) :
    (Grammatical text.toList → Accepted (evaluateExpression env (.facts f) text)) ∧
    (Text.isBlankText text = false → ¬ Grammatical text.toList →
      ∀ r, evaluateExpression env (.facts f) text ≠ .ok r) := by
  constructor
  · rintro ⟨s, hs, htext⟩
    have hblank : Text.isBlankText text = false := by
      obtain ⟨bs, bs', hbs, hbs', hcs⟩ := Text.exists_trim text.toList
      have := (Formula.tight s).isBlankText ⟨bs, hbs⟩ ⟨bs', hbs'⟩
      rwa [htext, List.append_assoc, ← hcs, String.ofList_toList] at this
    have hnames : ∀ name, Accepted ((Context.facts f).values name) := fun name g hg => by
      rw [Context.values_error hg]
      exact ⟨by decide, by decide⟩
    rw [evaluateExpression_plain env _ hblank hgroup hequals, ← htext]
    exact (accepted_precision env).bind fun p => (accepted_of_flat hnames s hs).map _
  · intro hblank hungrammatical r hr
    have hnames := namesIdentifiers_of_facts hkeys
    rw [evaluateExpression_plain env _ hblank hgroup hequals] at hr
    rcases hp : env.precision with g | p
    · rw [hp] at hr
      cases hr
    · rcases hv : evaluateFlat p (Context.facts f).values (Text.trim text.toList) with g | v
      · rw [hp, Except.bind, hv] at hr
        cases hr
      · exact hungrammatical (Grammatical.trim_iff.1 (grammatical_of_evaluateFlat hnames hv))

/-- Facts that bind a name that ends like the mantissa of a numeral with a power of ten. -/
def markedFacts : Facts := ⟨[("size1e", .int 8)]⟩

theorem isIdentifier_of_markedFacts (name : String) (d : Datum)
    (h : markedFacts.get? name = some d) : isIdentifier name.toList = true := by
  simp only [markedFacts, Facts.get?, List.lookup] at h
  split at h
  · next hname =>
    rw [eq_of_beq hname]
    decide
  · cases h

/-- The minus behind a name that ends with a power mark is an operation.  The one behind a numeral
that ends so belongs to the numeral, and so `1e-` lacks digits. -/
theorem evaluateExpression_grammaticalSample :
    Accepted (evaluateExpression [] (.facts markedFacts) "size1e-1e-2-1") ∧
      ∀ r, evaluateExpression [] (.facts markedFacts) "size1e-1e-" ≠ .ok r := by
  have hmasks : ∀ text ∈ ["size1e-1e-2-1", "size1e-1e-"],
      '(' ∉ mask text.toList ∧ '=' ∉ mask text.toList := by
    decide +kernel
  have hsample := hmasks "size1e-1e-2-1" (by simp)
  have hdangling := hmasks "size1e-1e-" (by simp)
  refine ⟨(evaluateExpression_grammatical [] isIdentifier_of_markedFacts hsample.1 hsample.2).1 ?_,
    (evaluateExpression_grammatical [] isIdentifier_of_markedFacts hdangling.1 hdangling.2).2
      (by decide) ?_⟩
  · refine ⟨.link (.leaf (.name "size1e".toList (by decide))) .none .sub .none <|
      .link (.leaf (.number "1e-2".toList (by decide))) .none .sub .none <|
        .single (.leaf (.number ['1'] (by decide))), ?_, by decide +kernel⟩
    simp [Formula.IsFlat, Sequence.operands, Operand.IsFlat]
  · -- If it were grammatical, its evaluation would find no fault with it.
    intro hgrammatical
    have haccepted := (evaluateExpression_grammatical [] isIdentifier_of_markedFacts hdangling.1
      hdangling.2).1 hgrammatical
    have hfails : (evaluateExpression [] (.facts markedFacts) "size1e-1e-").map (fun _ => ()) =
        .error (.unreadable "1e-") := by
      decide +kernel
    exact ((haccepted.map fun _ => ()) _ hfails).1 rfl

end BusinessRules.Expression

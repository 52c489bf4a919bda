import Mathlib.Logic.Relation
import BusinessRules.Proofs.Expression.Outermost
import BusinessRules.Proofs.Rule.Binding

/-!
# Computed amounts

The precision is a bound for what is computed, not for what is written or known: literals, numbers
in the facts and the literals that stand for groups are exact, however long they are, and a plus
sign leaves them so.  But what an expression computes by an operator is rounded in the end.  So an
amount that is updated again and again never has more digits than the precision allows, whatever it
is combined with.

An operand that begins directly behind a group takes this away: the literal of `1234567` in
`(1234567)e+0` makes a numeral with what is behind it, and a numeral is not rounded.

## Main definitions

* `Computes`: an expression whose value an operator computes
* `Computed`: a rounded number, or one that is not finite
* `Updates`: two contexts one of which follows the other one by an expression that computes

## Main statements

* `computed_of_ok`: an expression that computes has a computed value
* `evaluateExpression_rounded`: so is what any number of them bind
-/

namespace BusinessRules.Expression

variable {p : Precision} {env : Environment} {context context' : Context} {names : Names}

/-! ## Expressions that compute -/

/-- An expression whose value an operator computes: one whose text, or right side, has an operator
between two operands, outside quotes and groups, and no operand directly behind a group; or any
compound assignment. -/
inductive Computes (cs : List Char) : Prop where
  | plain (bare : '=' ∉ mask cs) (operation : HasOperation cs) (loose : Loose (mask cs))
  | assigned {left right : List Char} (text : cs = left ++ '=' :: right)
    (closed : quoteAfter none left = none) (operation : HasOperation right)
    (loose : Loose (mask right))
  | compound {left right : List Char} {op : Char} (text : cs = left ++ '=' :: right)
    (closed : quoteAfter none left = none) (target : (Text.trim left).getLast? = some op)
    (operator : operators.contains op = true)

/-- A number that an operation may have as its result: one with no more digits than the precision
allows, or one that is not finite, if there is a number among the names that is not. -/
inductive Computed (p : Precision) (names : Names) : Value → Prop where
  | rounded {x : Decimal} (short : x.Rounded p) : Computed p names (.number x)
  | special {x y : Decimal} {name : String} (value : ¬ x.IsFinite)
    (bound : names name = .ok (some (.number y))) (number : ¬ y.IsFinite) :
    Computed p names (.number x)

/-- An expression with an equals sign outside quotes is an assignment of what stands behind it, or
a compound one. -/
theorem exists_assign_of_equals {given : String} {left right : List Char}
    (hclosed : quoteAfter none left = none) {statement : Statement}
    (h : Statement.ofText given (Text.trim (left ++ '=' :: right)) = .ok statement) :
    ∃ name text, statement = .assign name text ∧ isIdentifier name = true ∧
      Statement.expand (Text.trim left) (Text.trim right) = (name, text) := by
  have hmask : mask (Text.trim (left ++ '=' :: right)) =
      mask (Text.trimStart left) ++ '=' :: mask (Text.trimEnd right) := by
    rw [Text.trim_around (by decide), mask_append (quoteAfter_trimStart hclosed),
      mask_cons (by decide)]
  have hplace : (Text.trimStart left).length ∈
      occurrences '=' (mask (Text.trim (left ++ '=' :: right))) := by
    rw [mem_occurrences, hmask, ← length_mask, List.getElem?_append_right le_rfl, Nat.sub_self,
      List.getElem?_cons_zero]
  rw [Statement.ofText] at h
  split at h
  · next hnone =>
    rw [hnone] at hplace
    cases hplace
  · next i hone =>
    rw [hone, List.mem_singleton] at hplace
    rcases hexpand : Statement.expand (Text.trim left) (Text.trim right) with ⟨name, text⟩
    rw [← hplace, Text.trim_around (by decide)] at h
    simp only [List.take_left, ← List.drop_drop, List.drop_left, List.drop_one, List.tail_cons,
      Text.trim_trimStart, Text.trim_trimEnd, hexpand] at h
    split at h
    · cases h
    · next hname =>
      split at h
      · cases h
      · cases h
        exact ⟨name, text, rfl, by simpa using hname, rfl⟩
  · cases h

/-- The written-out form of an assignment begins with the name and the operator, if it is a compound
one, and is the right side otherwise. -/
theorem expand_cases {target right name text : List Char}
    (h : Statement.expand target right = (name, text)) :
    (∃ op back, operators.contains op = true ∧ text = name ++ ' ' :: op :: back) ∨
      (∀ op, target.getLast? = some op → operators.contains op = false) ∧ text = right := by
  rw [Statement.expand] at h
  split at h
  · next op hop =>
    split at h
    · next hoperator =>
      cases h
      exact .inl ⟨op, ' ' :: '(' :: right ++ [')'], hoperator, by simp⟩
    · next hoperator =>
      cases h
      refine .inr ⟨fun op' hop' => ?_, rfl⟩
      rw [← Option.some.inj (hop.symm.trans hop')]
      simpa using hoperator
  · next hnone =>
    cases h
    refine .inr ⟨fun op hop => ?_, rfl⟩
    rw [hnone] at hop
    cases hop

/-- An expression that is not blank and has a value has that of its statement. -/
theorem exists_statement_of_ok (henv : env.precision = .ok p) {text : String} {v : Value}
    (hblank : Text.isBlankText text = false)
    (h : evaluateExpression env context text = .ok (v, context')) :
    ∃ statement, Statement.ofText text (Text.trim text.toList) = .ok statement ∧
      evaluateArithmetic p context.values statement.source = .ok v := by
  rw [evaluateExpression, hblank, if_neg Bool.false_ne_true, henv] at h
  simp only at h
  split at h
  · cases h
  · next statement hstatement =>
    refine ⟨statement, hstatement, ?_⟩
    cases statement with
    | compute cs =>
      simp only [Statement.run] at h
      split at h
      · cases h
      · next w hw =>
        cases h
        exact hw
    | assign target right =>
      simp only [Statement.run] at h
      split at h
      · cases h
      · next w hw =>
        split at h
        · cases h
        · cases h
          exact hw

theorem Computes.not_isBlankText {text : String} (h : Computes text.toList) :
    Text.isBlankText text = false := by
  cases h with
  | plain bare operation loose =>
    obtain ⟨op, i, hop, hi, -⟩ := operation
    have hplace := (quoteAfter_take_mask hi (isQuote_of_operator hop)
      (ne_of_class hop (by decide))).2
    exact Text.isBlankText_of_mem (List.mem_of_getElem? hplace) (isBlank_of_operator hop)
  | assigned text closed operation loose =>
    exact Text.isBlankText_of_mem (c := '=') (by simp [text]) (by decide)
  | compound text closed target operator =>
    exact Text.isBlankText_of_mem (c := '=') (by simp [text]) (by decide)

/-- **An expression that computes has the result of an operation as its value.** -/
theorem exists_operate_of_ok (henv : env.precision = .ok p) {text : String}
    (hcomputes : Computes text.toList) {v : Value}
    (h : evaluateExpression env context text = .ok (v, context')) :
    ∃ op u w, operate p op u w = .ok v := by
  obtain ⟨statement, hstatement, hvalue⟩ :=
    exists_statement_of_ok henv hcomputes.not_isBlankText h
  have hright : ∀ {right : List Char}, HasOperation right → Loose (mask right) →
      evaluateArithmetic p context.values (Text.trim right) = .ok v →
      ∃ op u w, operate p op u w = .ok v := by
    intro right hoperation hloose hright
    rw [evaluateArithmetic, Text.trim_trim] at hright
    exact exists_operate hoperation hloose hright
  cases hcomputes with
  | plain bare operation loose =>
    cases statement with
    | compute cs =>
      obtain rfl := text_of_compute hstatement
      exact hright operation loose hvalue
    | assign target right =>
      obtain ⟨i, hequals, -⟩ := exists_of_assign hstatement
      exact absurd (mem_mask_of_trim (List.mem_of_getElem? hequals)) bare
  | assigned text closed operation loose =>
    rw [text] at hstatement
    obtain ⟨name, source, rfl, hname, hexpand⟩ := exists_assign_of_equals closed hstatement
    rcases expand_cases hexpand with ⟨op, back, hop, rfl⟩ | ⟨-, rfl⟩
    · exact exists_operate_of_compound hname hop hvalue
    · exact hright operation loose hvalue
  | compound text closed target operator =>
    rw [text] at hstatement
    obtain ⟨name, source, rfl, hname, hexpand⟩ := exists_assign_of_equals closed hstatement
    rcases expand_cases hexpand with ⟨op, back, hop, rfl⟩ | ⟨hother, -⟩
    · exact exists_operate_of_compound hname hop hvalue
    · rw [hother _ target] at operator
      cases operator

/-! ## Computed amounts -/

/-- **An expression that computes has a computed value**, for the names that it looks up. -/
theorem computed_of_ok (henv : env.precision = .ok p) {text : String}
    (hcomputes : Computes text.toList) {v : Value}
    (h : evaluateExpression env context text = .ok (v, context')) :
    Computed p context.values v := by
  obtain ⟨op, u, w, hoperate⟩ := exists_operate_of_ok henv hcomputes h
  obtain ⟨x, rfl, hrounded⟩ := exists_rounded_of_operate hoperate
  by_cases hfinite : x.IsFinite
  · exact .rounded (hrounded hfinite)
  · -- Operations on finite numbers are finite or fail.
    obtain ⟨statement, -, hvalue⟩ := exists_statement_of_ok henv hcomputes.not_isBlankText h
    have hnames : ¬ NamesIn Decimal.IsFinite context.values := fun hnames =>
      hfinite (isRange_isFinite.evaluateArithmetic hnames hvalue x rfl)
    simp only [NamesIn, not_forall] at hnames
    obtain ⟨name, y, hbound, hy⟩ := hnames
    exact .special hfinite hbound hy

/-- What an expression leaves of the names: it binds its value to its target, if it has one. -/
theorem values_of_ok {text : String} {v : Value}
    (h : evaluateExpression env context text = .ok (v, context')) :
    (target? text = none ∧ context' = context) ∨ ∃ name, target? text = some name ∧
      context'.values = Function.update context.values name (.ok (some v)) := by
  rcases htarget : target? text with _ | name
  · refine .inl ⟨rfl, ?_⟩
    rw [evaluateExpression] at h
    split at h
    · cases h
      rfl
    · split at h
      · cases h
      · split at h
        · cases h
        · next statement hstatement =>
          cases statement with
          | compute cs =>
            simp only [Statement.run] at h
            split at h
            · cases h
            · cases h
              rfl
          | assign target right =>
            rw [target?, hstatement] at htarget
            cases htarget
  · obtain ⟨p, f, -, rfl, rfl⟩ := exists_of_assigned htarget h
    exact .inr ⟨name, rfl, values_set f name v⟩

/-- One context follows another one by an expression that computes. -/
def Updates (env : Environment) (context context' : Context) : Prop :=
  ∃ text v, Computes text.toList ∧ evaluateExpression env context text = .ok (v, context')

/-- A number that is computed from computed numbers and others is one that may be computed from the
others. -/
theorem Computed.of_names {names' : Names} (hnames : ∀ name, names' name = names name ∨
      ∃ v, names' name = .ok (some v) ∧ Computed p names v)
    {v : Value} (h : Computed p names' v) : Computed p names v := by
  cases h with
  | rounded short => exact .rounded short
  | @special x y name value bound number =>
    rcases hnames name with hsame | ⟨w, hw, hcomputed⟩
    · exact .special value (hsame ▸ bound) number
    · rw [hw] at bound
      cases bound
      cases hcomputed with
      | rounded short => exact absurd short.fits.isFinite number
      | special value' bound' number' => exact .special value bound' number'

/-- **The precision bounds what is computed.**  An expression that computes has as its value a
number with no more digits than the precision allows, or one that is not finite, which only happens
where a number is not finite to which a name is bound.  That value is bound to the target.  So,
after any number of such expressions, each name stands for what it stood for in the beginning or for
a number of that kind. -/
theorem evaluateExpression_rounded (henv : env.precision = .ok p) (context : Context) :
    (∀ text v context', Computes text.toList →
      evaluateExpression env context text = .ok (v, context') →
        Computed p context.values v ∧ ∀ name, target? text = some name →
          context'.values = Function.update context.values name (.ok (some v))) ∧
    ∀ context', Relation.ReflTransGen (Updates env) context context' →
      ∀ name, context'.values name = context.values name ∨
        ∃ v, context'.values name = .ok (some v) ∧ Computed p context.values v := by
  constructor
  · intro text v context' hcomputes h
    refine ⟨computed_of_ok henv hcomputes h, fun name htarget => ?_⟩
    rcases values_of_ok h with ⟨hnone, -⟩ | ⟨name', hname', hvalues⟩
    · rw [hnone] at htarget
      cases htarget
    · rwa [Option.some.inj (htarget.symm.trans hname')]
  · intro context' hrun
    induction hrun with
    | refl => exact fun name => .inl rfl
    | @tail mid last _ hstep ih =>
      obtain ⟨text, v, hcomputes, h⟩ := hstep
      have hcomputed := (computed_of_ok henv hcomputes h).of_names ih
      intro name
      rcases values_of_ok h with ⟨-, rfl⟩ | ⟨target, -, hvalues⟩
      · exact ih name
      · rw [hvalues]
        by_cases hname : name = target
        · rw [hname, Function.update_self]
          exact .inr ⟨v, rfl, hcomputed⟩
        · rw [Function.update_of_ne hname]
          exact ih name

/-- An environment that asks for a precision of five digits. -/
def fiveDigits : Environment := [("RULIFY_DECIMAL_PRECISION", "5")]

/-- A number of nine digits, and another one. -/
def amounts : Facts := ⟨[("total", .int 123456789), ("rate", .int 1)]⟩

/-- At a precision of five digits, a long amount is updated, and what is computed from it and a long
literal is bound. -/
theorem evaluateExpression_roundedSample : ∃ context context',
    evaluateExpression fiveDigits (.facts amounts) "total += rate" =
        .ok (.number (.finite false 12346 4), context) ∧
      evaluateExpression fiveDigits context "half = (total + 0.123456789) / 2" =
        .ok (.number (.finite false 61730 3), context') ∧
      Computed ⟨5, by decide, by decide⟩ (Context.facts amounts).values
        (.number (.finite false 12346 4)) ∧
      ∃ v, context'.values "half" = .ok (some v) ∧
        Computed ⟨5, by decide, by decide⟩ (Context.facts amounts).values v := by
  have henv : fiveDigits.precision = .ok ⟨5, by decide, by decide⟩ := by decide +kernel
  obtain ⟨hone, hrun⟩ := evaluateExpression_rounded henv (.facts amounts)
  have hcompound : Computes "total += rate".toList :=
    .compound (show _ = "total +".toList ++ '=' :: " rate".toList from rfl) (by decide) rfl
      (by decide)
  have hassigned : Computes "half = (total + 0.123456789) / 2".toList := by
    have htext : "half = (total + 0.123456789) / 2".toList =
      "half ".toList ++ '=' :: " (total + 0.123456789) / 2".toList := rfl
    refine .assigned htext (by decide)
      ⟨'/', 23, by decide, by decide +kernel, by decide +kernel, ?_⟩ (by decide +kernel)
    change depth 0 _ = some 0
    decide +kernel
  obtain ⟨context, h⟩ := exists_of_number? (n := .finite false 12346 4)
    (r := evaluateExpression fiveDigits (.facts amounts) "total += rate") (by decide +kernel)
  have htarget : target? "total += rate" = some "total" := by decide +kernel
  obtain ⟨-, f, -, hf, rfl⟩ := exists_of_assigned htarget h
  cases hf
  obtain ⟨context', h'⟩ := exists_of_number? (n := .finite false 61730 3)
    (r := evaluateExpression fiveDigits
      (.facts (amounts.set "total" (.decimal (.finite false 12346 4))))
      "half = (total + 0.123456789) / 2") (by decide +kernel)
  refine ⟨_, context', h, h', (hone _ _ _ hcompound h).1, ?_⟩
  have htarget' : target? "half = (total + 0.123456789) / 2" = some "half" := by decide +kernel
  have hsteps : Relation.ReflTransGen (Updates fiveDigits) (.facts amounts) context' :=
    .tail (.single ⟨_, _, hcompound, h⟩) ⟨_, _, hassigned, h'⟩
  refine (hrun context' hsteps "half").resolve_left fun hunbound => ?_
  -- In the beginning the name is not bound.
  obtain ⟨-, f, -, -, rfl⟩ := exists_of_assigned htarget' h'
  rw [values_set, Function.update_self] at hunbound
  cases hunbound

/-- An operand directly behind a group makes a numeral together with its literal, which is not
rounded. -/
theorem touching_unrounded :
    HasOperation "(1234567)e+0".toList ∧ ¬ Loose (mask "(1234567)e+0".toList) ∧
      number? ((evaluateExpression fiveDigits (.facts amounts) "(1234567)e+0").map Prod.fst) =
        some (.finite false 1234567 0) := by
  refine ⟨⟨'+', 10, by decide, by decide +kernel, by decide +kernel, ?_⟩, by decide +kernel,
    by decide +kernel⟩
  change depth 0 _ = some 0
  decide +kernel

end BusinessRules.Expression

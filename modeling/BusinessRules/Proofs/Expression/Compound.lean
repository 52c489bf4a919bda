import BusinessRules.Proofs.Expression.Acceptance
import BusinessRules.Proofs.Expression.Balance
import BusinessRules.Proofs.Expression.Range
import BusinessRules.Proofs.Expression.Refinement

/-!
# Compound assignments

`name op= right` is evaluated as `name = name op (right)`, a text in which the right side stands
between parentheses that were added to it.  This is what it abbreviates as long as the right side
closes no parenthesis that it has not opened and leaves no quote open.  A right side that does is
no text of its own, but may well be one between the added parentheses: `1) * (2` is refused, and
still `x *= 1) * (2` multiplies twice.

## Main definitions

* `compoundText`: the text of a compound assignment

## Main statements

* `evaluateExpression_expanded`: what a compound assignment evaluates and binds
* `expanded_raises`, `expanded_computes`: what the text evaluates to that it is written out as
* `evaluateExpression_compound`: what it means
-/

namespace BusinessRules.Expression

open Text (Blanks Tight)

variable {p : Precision} {env : Environment} {names : Names}

/-- The text of a compound assignment. -/
def compoundText (front : Blanks) (name : List Char) (gap : Blanks) (op : Operation)
    (gap' : Blanks) (right : List Char) : List Char :=
  front.chars ++ (name ++ gap.chars ++ [op.symbol]) ++ gap'.chars ++ '=' :: right

/-- What stands in front of the right side in the text that is evaluated. -/
def leftText (name : List Char) (op : Operation) : List Char :=
  name ++ (Blanks.space.chars ++ op.symbol :: Blanks.space.chars)

/-- What a compound assignment evaluates. -/
def expandedText (name : List Char) (op : Operation) (right : List Char) : List Char :=
  leftText name op ++ '(' :: right ++ [')']

/-! ## Reading the assignment -/

/-- A name and an operator are taken apart again. -/
theorem expand_compound {name : List Char} (hname : isIdentifier name = true) (gap : Blanks)
    (op : Operation) (right : List Char) :
    Statement.expand (name ++ gap.chars ++ [op.symbol]) right =
      (name, expandedText name op right) := by
  have htrim : Text.trim (name ++ gap.chars) = name :=
    (Leaf.name name hname).tight.trim Blanks.none.blank gap.blank
  rw [Statement.expand, List.getLast?_concat]
  simp only [operators_symbol, if_true, List.dropLast_concat, htrim]
  simp [expandedText, leftText, Blanks.space]

theorem tight_target {name : List Char} (hname : isIdentifier name = true) (gap : Blanks)
    (op : Operation) : Tight (name ++ gap.chars ++ [op.symbol]) := by
  have hop : Tight [op.symbol] := .of_forall (List.cons_ne_nil _ _) fun c hc =>
    List.mem_singleton.1 hc ▸ isBlank_of_operator (operators_symbol op)
  exact (Leaf.name name hname).tight.append hop gap.chars

/-- The target side of a compound assignment shows itself, without an equals sign. -/
theorem shows_target {name : List Char} (hname : isIdentifier name = true) (gap : Blanks)
    (op : Operation) (gap' : Blanks) :
    mask ((name ++ gap.chars ++ [op.symbol]) ++ gap'.chars) =
        (name ++ gap.chars ++ [op.symbol]) ++ gap'.chars ∧
      quoteAfter none ((name ++ gap.chars ++ [op.symbol]) ++ gap'.chars) = none ∧
      '=' ∉ (name ++ gap.chars ++ [op.symbol]) ++ gap'.chars := by
  have hblank : ∀ b : Blanks, ∀ c ∈ b.chars, Literal.isQuote c = false ∧ c ≠ '=' := fun b c hc =>
    ⟨isQuote_of_isBlank (b.blank c hc), ne_of_class (b.blank c hc) (by decide)⟩
  have hall : ∀ c ∈ (name ++ gap.chars ++ [op.symbol]) ++ gap'.chars,
      Literal.isQuote c = false ∧ c ≠ '=' := by
    intro c hc
    simp only [List.mem_append, List.mem_singleton] at hc
    rcases hc with ((hc | hc) | rfl) | hc
    · have hchar := isNameChar_of_isIdentifier hname c hc
      exact ⟨isQuote_of_isWordPart (by rw [isWordPart, hchar, Bool.true_or]),
        ne_of_class hchar (by decide)⟩
    · exact hblank gap c hc
    · exact ⟨isQuote_of_operator (operators_symbol op),
        ne_of_class (operators_symbol op) (by decide)⟩
    · exact hblank gap' c hc
  obtain ⟨hmask, hclosed⟩ := mask_of_no_quote fun c hc => (hall c hc).1
  exact ⟨hmask, hclosed, fun hmem => (hall _ hmem).2 rfl⟩

/-- **A compound assignment is read as an assignment of the written-out text.** -/
theorem ofText_compound (given : String) (front : Blanks) {name : List Char}
    (hname : isIdentifier name = true) (gap : Blanks) (op : Operation) (gap' : Blanks)
    {right : List Char} (hequals : '=' ∉ mask right) :
    Statement.ofText given (Text.trim (compoundText front name gap op gap' right)) =
      .ok (.assign name (expandedText name op (Text.trim right))) := by
  obtain ⟨hmask, hclosed, hnone⟩ := shows_target hname gap op gap'
  have htight := tight_target hname gap op
  generalize htarget : name ++ gap.chars ++ [op.symbol] = target at hmask hclosed hnone htight
  have htrim : Text.trim (compoundText front name gap op gap' right) =
      (target ++ gap'.chars) ++ '=' :: Text.trimEnd right := by
    obtain ⟨⟨c, rest, rfl, hc⟩, -⟩ := htight
    rw [compoundText, htarget, Text.trim_around (by decide), List.append_assoc,
      Text.trimStart_append front.blank, List.cons_append, Text.trimStart_cons hc]
  have hplaces : occurrences '=' (mask ((target ++ gap'.chars) ++ '=' :: Text.trimEnd right)) =
      [(target ++ gap'.chars).length] := by
    obtain ⟨later, hlater, hnil⟩ := occurrences_append_cons '=' (target ++ gap'.chars)
      (mask (Text.trimEnd right))
    have hempty : occurrences '=' (target ++ gap'.chars) = [] := by
      rw [List.eq_nil_iff_forall_not_mem]
      exact fun i hi => hnone (List.mem_of_getElem? (mem_occurrences.1 hi))
    rw [mask_append hclosed, hmask, mask_cons (by decide), hlater, hempty,
      hnil (not_mem_mask_trimEnd hequals), List.nil_append]
  have hleft : Text.trim (target ++ gap'.chars) = target :=
    htight.trim Blanks.none.blank gap'.blank
  have hright := Text.trim_trimEnd right
  have hexpand : Statement.expand target (Text.trim right) =
      (name, expandedText name op (Text.trim right)) := htarget ▸ expand_compound hname gap op _
  have hne : (expandedText name op (Text.trim right)).isEmpty = false := by
    simp [expandedText]
  rw [htrim, Statement.ofText, hplaces]
  simp only [List.take_left, ← List.drop_drop, List.drop_left, List.drop_one, List.tail_cons,
    hleft, hright, hexpand, hname, hne]
  rfl

/-- **What a compound assignment evaluates and binds.** -/
theorem evaluateExpression_expanded (henv : env.precision = .ok p) (f : Facts) (front : Blanks)
    {name : List Char} (hname : isIdentifier name = true) (gap : Blanks) (op : Operation)
    (gap' : Blanks) {right : List Char} (hequals : '=' ∉ mask right) :
    evaluateExpression env (.facts f)
        (String.ofList (compoundText front name gap op gap' right)) =
      (evaluateArithmetic p (Context.facts f).values
        (expandedText name op (Text.trim right))).map fun v =>
          (v, .facts (f.set (String.ofList name) v.toDatum)) := by
  have hblank : Text.isBlankText
      (String.ofList (compoundText front name gap op gap' right)) = false :=
    Text.isBlankText_of_mem (c := '=') (by simp [compoundText]) (by decide)
  rw [evaluateExpression, hblank, if_neg Bool.false_ne_true, henv]
  simp only [String.toList_ofList, ofText_compound _ front hname gap op gap' hequals,
    Statement.run]
  cases evaluateArithmetic p (Context.facts f).values (expandedText name op (Text.trim right)) <;>
    rfl

/-- What the right side evaluates as an expression of its own. -/
theorem evaluateExpression_right (henv : env.precision = .ok p) (context : Context)
    {right : List Char} (hblank : Text.isBlankText (String.ofList right) = false)
    (hequals : '=' ∉ mask right) : evaluateExpression env context (String.ofList right) =
      (evaluateArithmetic p context.values (Text.trim right)).map fun v => (v, context) := by
  have hequals' : '=' ∉ mask (String.ofList right).toList := by rwa [String.toList_ofList]
  rw [evaluateExpression_compute env context hblank hequals', henv, String.toList_ofList]
  rfl

/-! ## The right side between parentheses -/

/-- An open quote was opened by a quote mark. -/
theorem isQuote_of_quoteAfter {opened : Option Char} {cs : List Char}
    (hopened : ∀ q, opened = some q → Literal.isQuote q = true) {q : Char}
    (h : quoteAfter opened cs = some q) : Literal.isQuote q = true := by
  induction cs generalizing opened with
  | nil => exact hopened q h
  | cons c cs ih =>
    refine ih (fun r hr => ?_) h
    cases opened with
    | none =>
      rw [stepQuote] at hr
      split at hr
      · next hc => exact Option.some.inj hr ▸ hc
      · cases hr
    | some s =>
      rw [stepQuote] at hr
      split at hr
      · cases hr
      · exact hopened r hr

theorem shows_leftText {name : List Char} (hname : isIdentifier name = true) (op : Operation) :
    Shows isNoParen (leftText name op) :=
  ((Leaf.name name hname).shows isNoParen_of_isFlatChar).append (shows_operation .space op .space)

/-- The depth behind a right side and the parenthesis that is added behind it. -/
theorem depth_closing {right : List Char} {k : Nat} (h : depth 0 (mask right) = some k) :
    depth 1 (mask (right ++ [')'])) =
      some (if quoteAfter none right = none then k else k + 1) := by
  rw [mask_eq_maskFrom, maskFrom_append, ← mask_eq_maskFrom, depth_append, depth_succ h,
    Option.bind_some]
  cases hquote : quoteAfter none right with
  | none => rfl
  | some q =>
    -- Behind an open quote the added parenthesis does not show.
    have hq : ')' ≠ q := by
      have hmark := isQuote_of_quoteAfter (by simp) hquote
      rintro rfl
      revert hmark
      decide
    simp only [maskFrom, maskChar, if_neg hq]
    rfl

/-- Blanks neither open nor close a quote. -/
theorem quoteAfter_blanks {opened : Option Char}
    (hopened : ∀ q, opened = some q → Literal.isQuote q = true) {bs : List Char}
    (h : ∀ c ∈ bs, Text.isBlank c = true) : quoteAfter opened bs = opened := by
  induction bs with
  | nil => rfl
  | cons b bs ih =>
    have hb := isQuote_of_isBlank (h b List.mem_cons_self)
    have hstep : stepQuote opened b = opened := by
      cases opened with
      | none => rw [stepQuote, hb, if_neg Bool.false_ne_true]
      | some q =>
        have hne : b ≠ q := by
          rintro rfl
          rw [hopened b rfl] at hb
          cases hb
        rw [stepQuote, if_neg hne]
    change quoteAfter (stepQuote opened b) bs = opened
    rw [hstep, ih fun c hc => h c (List.mem_cons_of_mem b hc)]

theorem quoteAfter_trim (cs : List Char) :
    quoteAfter none (Text.trim cs) = quoteAfter none cs := by
  obtain ⟨bs, bs', hbs, hbs', hcs⟩ := Text.exists_trim cs
  have hopened : ∀ q, quoteAfter none (Text.trim cs) = some q → Literal.isQuote q = true :=
    fun q => isQuote_of_quoteAfter (by simp)
  conv => rhs; rw [hcs]
  rw [quoteAfter_append, quoteAfter_blanks (by simp) hbs, quoteAfter_append,
    quoteAfter_blanks hopened hbs']

/-- **A right side that is evaluated between parentheses is a text of its own**, if it closes no
parenthesis that it has not opened. -/
theorem balanced_of_expanded {name : List Char} (hname : isIdentifier name = true) {op : Operation}
    {right : List Char} (hcloses : (depth 0 (mask right)).isSome = true) {v : Value}
    (h : evaluateArithmetic p names (expandedText name op right) = .ok v) :
    quoteAfter none right = none ∧ Balanced (mask right) := by
  have hbalanced := balanced_of_evaluateArithmetic h
  have hleft := shows_leftText hname op
  obtain ⟨k, hk⟩ := Option.isSome_iff_exists.1 hcloses
  rw [Balanced, expandedText, List.append_assoc, List.cons_append, mask_append hleft.closed,
    mask_cons (by decide), depth_append, depth_plain (not_mem_of_shows hleft), Option.bind_some,
    show depth 0 ('(' :: mask (right ++ [')'])) = depth 1 (mask (right ++ [')'])) from rfl,
    depth_closing hk, Option.some.injEq] at hbalanced
  split at hbalanced
  · next hquote => exact ⟨hquote, hk.trans (congrArg some hbalanced)⟩
  · cases hbalanced

/-! ## The operation -/

/-- An operation between two words. -/
theorem evaluateArithmetic_words (a b : Leaf) (op : Operation) :
    evaluateArithmetic p names
        (a.text ++ (Blanks.space.chars ++ op.symbol :: Blanks.space.chars) ++ b.text) =
      op.combine p (a.value names) (b.value names) := by
  obtain ⟨s, hs⟩ : ∃ s : Formula, s = .link (.leaf a) .space op .space (.single (.leaf b)) :=
    ⟨_, rfl⟩
  have hflat : Formula.IsFlat s := by
    rw [hs]
    intro o ho
    rcases List.mem_pair.1 ho with rfl | rfl <;> trivial
  have hsplit : s.mainSplit? =
      some (op, ⟨.single (.leaf a), .space, .space, .single (.leaf b)⟩) := by
    rw [hs]
    cases op <;> rfl
  have hcut := Formula.cut hflat hsplit
  have hpadded : evaluateArithmetic p names
      (Blanks.none.chars ++ Formula.text s ++ Blanks.none.chars) = _ :=
    evaluateArithmetic_flat hflat .none .none
  rw [evaluateFlat_split (not_closing_of_flat hflat) hcut.main, hcut.left, hcut.right] at hpadded
  have hword : ∀ l : Leaf, evaluateFlat p names (Formula.text (.single (.leaf l))) =
      l.value names := evaluateFlat_word
  rw [hword, hword, show Blanks.none.chars = [] from rfl, List.nil_append, List.append_nil,
    hs] at hpadded
  exact hpadded

/-- An operation between the value of a name, if it has one, and the value that a literal stands
for. -/
theorem evaluateArithmetic_literal {name : List Char} (hname : isIdentifier name = true)
    (hword : Literal.word? name = none) (op : Operation) {w : Outcome Value} {v : Value}
    {literal : List Char} (hbound : names (String.ofList name) = w.map some)
    (hw : ∀ u, w = .ok u → u.toNumber.IsFinite) (hliteral : Literal.format v = .ok literal)
    (hv : ∀ x, v = .number x → x.InRange) :
    Agree Eq (Close p) (evaluateArithmetic p names (leftText name op ++ literal ++ []))
      (w.bind fun u => op.apply p u v) := by
  obtain ⟨l, u, rfl, hvalue, halike, -⟩ := exists_leaf_of_format hliteral hv
  have hwords : evaluateArithmetic p names (leftText name op ++ l.text) = _ :=
    evaluateArithmetic_words (.name name hname) l op
  have hleft : (Leaf.name name hname).value names = w := by
    cases w <;> simp only [Leaf.value, hword, hbound, Except.map]
  have hsame : Decimal.Same u.toNumber v.toNumber := by
    rcases halike with rfl | ⟨x, y, rfl, rfl, hxy⟩
    · exact .refl (isRange_inRange.toNumber hv).isFinite
    · exact hxy
  rw [List.append_nil, hwords, hleft, hvalue]
  cases w with
  | error f => exact .error rfl
  | ok u => exact op.apply_same (.refl (hw u rfl)) hsame

/-- A right side that is a text of its own is a group between the added parentheses. -/
theorem grouped_right {name right : List Char} (hname : isIdentifier name = true) (op : Operation)
    (hclosed : quoteAfter none right = none) (hbalanced : Balanced (mask right)) :
    Grouped p names (leftText name op) right [] :=
  evaluateArithmetic_unit (shows_leftText hname op).closed hclosed hbalanced List.not_mem_nil

/-- The text that an assignment is written out as raises if the right side does and closes no
parenthesis that it has not opened: else the right side would be a group of its own, whose fault is
the fault of the whole. -/
theorem expanded_raises {name right : List Char} (hname : isIdentifier name = true)
    (op : Operation) (hcloses : (depth 0 (mask right)).isSome = true) {e : Fault}
    (he : evaluateArithmetic p names right = .error e) :
    ∃ g, evaluateArithmetic p names (expandedText name op right) = .error g := by
  cases hvalue : evaluateArithmetic p names (expandedText name op right) with
  | error g => exact ⟨g, rfl⟩
  | ok v =>
    obtain ⟨hclosed, hbalanced⟩ := balanced_of_expanded hname hcloses hvalue
    have hgrouped : Grouped p names (leftText name op) right [] :=
      grouped_right hname op hclosed hbalanced
    cases hgrouped with
    | failed h g found same result =>
      rw [expandedText, result] at hvalue
      cases hvalue
    | ungroupable w text found lacks result =>
      rw [found] at he
      cases he
    | replaced w literal found written result =>
      rw [found] at he
      cases he

/-- The text that an assignment is written out as computes the operation, if the right side has a
value with a literal and leaves no quote open. -/
theorem expanded_computes (hrange : NamesIn Decimal.InRange names) {name right : List Char}
    (hname : isIdentifier name = true) (hword : Literal.word? name = none) (op : Operation)
    {w : Outcome Value} (hbound : names (String.ofList name) = w.map some) {v : Value}
    (hv : evaluateArithmetic p names right = .ok v) (hclosed : quoteAfter none right = none)
    (hliteral : v.hasLiteral = true) :
    Agree Eq (Close p) (evaluateArithmetic p names (expandedText name op right))
      (w.bind fun u => op.apply p u v) := by
  have hgrouped : Grouped p names (leftText name op) right [] :=
    grouped_right hname op hclosed (balanced_of_evaluateArithmetic hv)
  cases hgrouped with
  | failed h g found same result =>
    rw [found] at hv
    cases hv
  | ungroupable v' text found lacks result =>
    cases found.symm.trans hv
    rw [lacks] at hliteral
    cases hliteral
  | replaced v' literal found written result =>
    cases found.symm.trans hv
    have hfinite : ∀ u, w = .ok u → u.toNumber.IsFinite := by
      rintro u rfl
      exact (isRange_inRange.toNumber fun x hx => hrange _ x (hx ▸ hbound)).isFinite
    rw [expandedText, result]
    exact evaluateArithmetic_literal hname hword op hbound hfinite written
      (isRange_inRange.evaluateArithmetic hrange found)

/-- Numbers that agree are bound. -/
theorem agree_bound {x y : Outcome Value} (h : Agree Eq (Close p) x y)
    (hy : ∀ v, y = .ok v → ∃ n, v = .number n) {f : Facts} {name : String} :
    Agree Eq
      (fun r w => ∃ m n, r = (.number m, .facts (f.set name (.decimal m))) ∧ w = .number n ∧
        Decimal.Same m n)
      (x.map fun v => (v, Context.facts (f.set name v.toDatum))) y := by
  cases h with
  | error he => exact .error he
  | @ok v w hvw =>
    obtain ⟨n, rfl⟩ := hy w rfl
    have hsame := hvw.same
    rcases hvw.alike with rfl | ⟨m, n', rfl, -, -⟩
    · exact .ok ⟨n, n, rfl, rfl, hsame⟩
    · exact .ok ⟨m, n, rfl, rfl, hsame⟩

/-- **A compound assignment means what it abbreviates.**  If the right side alone raises, and closes
no parenthesis that it has not opened, then so does the assignment.  If the right side has a value
that can be written, and leaves no quote open, then the assignment computes the operation between
the number that the name is bound to and the one of that value, and binds the result; or it fails
as that operation does, or as the name does if what it is bound to has no value.  Numbers are in
the range of all numbers that can be written. -/
theorem evaluateExpression_compound (henv : env.precision = .ok p) {f : Facts}
    (hrange : NamesIn Decimal.InRange (Context.facts f).values) {name : List Char}
    (hname : isIdentifier name = true) (hword : Literal.word? name = none) (op : Operation)
    (front gap gap' : Blanks) {right : List Char}
    (hblank : Text.isBlankText (String.ofList right) = false) (hequals : '=' ∉ mask right) :
    ((depth 0 (mask right)).isSome = true →
      ∀ e, evaluateExpression env (.facts f) (String.ofList right) = .error e →
        ∃ g, evaluateExpression env (.facts f)
          (String.ofList (compoundText front name gap op gap' right)) = .error g) ∧
    ∀ v context, evaluateExpression env (.facts f) (String.ofList right) = .ok (v, context) →
      quoteAfter none right = none → v.hasLiteral = true →
      ∀ d, f.get? (String.ofList name) = some d →
        Agree Eq
          (fun r w => ∃ x y, r = (.number x, .facts (f.set (String.ofList name) (.decimal x))) ∧
            w = .number y ∧ Decimal.Same x y)
          (evaluateExpression env (.facts f)
            (String.ofList (compoundText front name gap op gap' right)))
          (d.toValue.bind fun u => op.apply p u v) := by
  rw [evaluateExpression_expanded henv f front hname gap op gap' hequals,
    evaluateExpression_right henv _ hblank hequals]
  constructor
  · intro hcloses e he
    cases hvalue : evaluateArithmetic p (Context.facts f).values (Text.trim right) with
    | error g =>
      rw [← depth_trim] at hcloses
      obtain ⟨g', hg'⟩ := expanded_raises hname op hcloses hvalue
      exact ⟨g', by rw [hg']; rfl⟩
    | ok v =>
      rw [hvalue] at he
      cases he
  · intro v context hv hquote hliteral d hd
    cases hvalue : evaluateArithmetic p (Context.facts f).values (Text.trim right) with
    | error e =>
      rw [hvalue] at hv
      cases hv
    | ok w =>
      rw [hvalue] at hv
      cases hv
      have hbound : (Context.facts f).values (String.ofList name) = d.toValue.map some :=
        Context.values_of_lookup (congrArg Except.ok hd)
      have hclosed : quoteAfter none (Text.trim right) = none := by rw [quoteAfter_trim, hquote]
      refine agree_bound (expanded_computes hrange hname hword op hbound hvalue hclosed hliteral)
        fun y hy => ?_
      cases hu : d.toValue with
      | error g =>
        rw [hu] at hy
        cases hy
      | ok u =>
        rw [hu] at hy
        exact Operation.isNumber_of_apply hy

theorem namesIn_single {name : String} {d : Datum}
    (hd : ∀ x, d.toValue = .ok (.number x) → x.InRange) :
    NamesIn Decimal.InRange (Context.facts ⟨[(name, d)]⟩).values := by
  intro n x hn
  obtain ⟨e, he, hx⟩ := Context.exists_of_values hn
  simp only [Context.lookup, Facts.get?, List.lookup] at he
  split at he
  · cases he
    exact hd x hx
  · cases he

theorem inRange_five : ∀ x, (Datum.int 5).toValue = .ok (.number x) → x.InRange := by
  intro x hx
  simp only [Datum.toValue, Except.ok.injEq, Value.number.injEq] at hx
  exact ⟨false, 5, 0, hx.symm, by decide, by decide +kernel⟩

/-- The right side is computed first, whatever operations it holds, and one that raises makes the
assignment raise. -/
theorem evaluateExpression_compoundSample :
    (∃ x, evaluateExpression [] (.facts ⟨[("x", .int 5)]⟩) "x -= 1 - (2 * x)" =
        .ok (.number x, .facts (Facts.set ⟨[("x", .int 5)]⟩ "x" (.decimal x))) ∧ x.toRat = 14) ∧
      ∃ g, evaluateExpression [] (.facts ⟨[("x", .int 5)]⟩) "x += (1" = .error g := by
  have henv : Environment.precision [] = .ok ⟨28, by decide, by decide⟩ := rfl
  have hrange : NamesIn Decimal.InRange (Context.facts ⟨[("x", .int 5)]⟩).values :=
    namesIn_single inRange_five
  have hname : isIdentifier ['x'] = true := by decide
  have hword : Literal.word? ['x'] = none := by decide
  constructor
  · have hblank : Text.isBlankText (String.ofList " 1 - (2 * x)".toList) = false := by
      decide +kernel
    have hequals : '=' ∉ mask " 1 - (2 * x)".toList := by decide +kernel
    obtain ⟨context, hright⟩ : ∃ context, evaluateExpression [] (.facts ⟨[("x", .int 5)]⟩)
        (String.ofList " 1 - (2 * x)".toList) = .ok (.number (.finite true 9 0), context) :=
      exists_of_number? (by decide +kernel)
    have hagree := (evaluateExpression_compound henv hrange hname hword .sub .none .space .none
      hblank hequals).2 _ context hright (by decide +kernel) rfl (.int 5) rfl
    have hvalue : number? ((Datum.int 5).toValue.bind fun u =>
        Operation.sub.apply ⟨28, by decide, by decide⟩ u (.number (.finite true 9 0))) =
          some (.finite false 14 0) := by decide +kernel
    change Agree Eq _ (evaluateExpression [] (.facts ⟨[("x", .int 5)]⟩) "x -= 1 - (2 * x)") _
      at hagree
    generalize evaluateExpression [] (.facts ⟨[("x", .int 5)]⟩) "x -= 1 - (2 * x)" = r at hagree ⊢
    generalize (Datum.int 5).toValue.bind _ = y at hagree hvalue
    cases hagree with
    | error he => cases hvalue
    | ok h =>
      obtain ⟨x, n, rfl, rfl, hsame⟩ := h
      cases hvalue
      refine ⟨x, rfl, hsame.toRat_eq.trans ?_⟩
      norm_num [Decimal.toRat_finite, Decimal.toSigned]
  · have hblank : Text.isBlankText (String.ofList " (1".toList) = false := by decide +kernel
    have hequals : '=' ∉ mask " (1".toList := by decide +kernel
    have hraises : fault? ((evaluateExpression [] (.facts ⟨[("x", .int 5)]⟩)
        (String.ofList " (1".toList)).map Prod.fst) = some (.unmatchedParenthesis "(1") := by
      decide +kernel
    have hcloses : (depth 0 (mask " (1".toList)).isSome = true := by decide +kernel
    have hcompound := (evaluateExpression_compound henv hrange hname hword .add .none .space .none
      hblank hequals).1 hcloses
    cases hright : evaluateExpression [] (.facts ⟨[("x", .int 5)]⟩)
        (String.ofList " (1".toList) with
    | error e => exact hcompound e hright
    | ok r =>
      rw [hright] at hraises
      cases hraises

/-- A right side that closes a parenthesis that it has not opened raises by itself, but not between
the parentheses that are added to it. -/
theorem expandedText_escapes :
    fault? ((evaluateExpression [] (.facts ⟨[("x", .int 5)]⟩) "1) * (2").map Prod.fst) =
        some (.unmatchedParenthesis "1) * (2") ∧
      number? ((evaluateExpression [] (.facts ⟨[("x", .int 5)]⟩) "x *= 1) * (2").map Prod.fst) =
        some (.finite false 10 0) := by
  constructor <;> decide +kernel

end BusinessRules.Expression

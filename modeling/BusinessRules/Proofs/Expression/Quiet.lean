import BusinessRules.Proofs.Expression.Acceptance
import BusinessRules.Proofs.Expression.Splice

/-!
# Quote marks and their neighbours

Two words have an operator between them, or at least a blank, and a quote mark belongs to a word of
its own.  So no text that has a value shows a quote mark directly next to a character of another
operand, nor one directly behind a group.

## Main definitions

* `Adjacent`: characters next to each other with no quote open between them
* `Quiet`: a text in which no quote mark clashes with its neighbour

## Main statements

* `Formula.quiet`: formulas without groups are quiet
* `Quiet.of_splice`: a text is quiet if it is with a literal in the place of its last group
* `quiet_of_evaluateGroups`: texts that have values are quiet
-/

namespace BusinessRules.Expression

open Literal (isQuote)
open Text (Blanks)

/-! ## Neighbours -/

/-- The characters of operands, as far as they show. -/
def isOperandChar (c : Char) : Bool := isWordPart c || isQuote c

/-- Two characters next to each other, no quote being open between them. -/
def Adjacent (cs : List Char) (c d : Char) : Prop :=
  ∃ front back, cs = front ++ c :: d :: back ∧ quoteAfter none (front ++ [c]) = none

/-- A quote mark next to a character of an operand, or behind a closing parenthesis. -/
structure Clash (c d : Char) : Prop where
  left : isOperandChar c = true ∨ c = ')'
  right : isOperandChar d = true
  quote : isQuote c = true ∨ isQuote d = true

/-- A text in which no quote mark clashes with its neighbour. -/
def Quiet (cs : List Char) : Prop := ∀ c d, Adjacent cs c d → ¬ Clash c d

variable {c d : Char} {as bs cs : List Char}

theorem isOperandChar_of_isQuote (h : isQuote c = true) : isOperandChar c = true := by
  rw [isOperandChar, h, Bool.or_true]

theorem isOperandChar_of_isWordPart (h : isWordPart c = true) : isOperandChar c = true := by
  rw [isOperandChar, h, Bool.true_or]

theorem isWordPart_of_isOperandChar (h : isOperandChar c = true) (hquote : isQuote c = false) :
    isWordPart c = true := by
  rwa [isOperandChar, hquote, Bool.or_false] at h

theorem isBlank_of_isOperandChar (h : isOperandChar c = true) : Text.isBlank c = false := by
  rw [isOperandChar, Bool.or_eq_true] at h
  exact h.elim isBlank_of_isWordPart isBlank_of_isQuote

/-- Operators and blanks belong to no operand. -/
theorem isOperandChar_eq_false (h : operators.contains c = true ∨ Text.isBlank c = true) :
    isOperandChar c = false ∧ c ≠ ')' := by
  rcases h with hoperator | hblank
  · rcases mem_operators hoperator with rfl | rfl | rfl | rfl <;> decide
  · refine ⟨?_, ne_of_class hblank (by decide)⟩
    rw [Bool.eq_false_iff]
    intro hoperand
    rw [isBlank_of_isOperandChar hoperand] at hblank
    cases hblank

/-- What stands directly in front of a character of an operand without a clash is no quote mark, and
neither is that character. -/
theorem not_isQuote_of_not_clash (hc : isOperandChar c = true ∨ c = ')')
    (hd : isOperandChar d = true) (h : ¬ Clash c d) : isQuote c = false ∧ isQuote d = false := by
  rw [Bool.eq_false_iff, Bool.eq_false_iff]
  exact ⟨fun hquote => h ⟨hc, hd, .inl hquote⟩, fun hquote => h ⟨hc, hd, .inr hquote⟩⟩

namespace Adjacent

theorem append_right (h : Adjacent as c d) (bs : List Char) : Adjacent (as ++ bs) c d := by
  obtain ⟨front, back, rfl, hclosed⟩ := h
  exact ⟨front, back ++ bs, by simp, hclosed⟩

theorem append_left (has : quoteAfter none as = none) (h : Adjacent bs c d) :
    Adjacent (as ++ bs) c d := by
  obtain ⟨front, back, rfl, hclosed⟩ := h
  exact ⟨as ++ front, back, by simp, by rw [List.append_assoc, quoteAfter_append, has, hclosed]⟩

/-- The last character of a text that leaves no quote open and the first one of the next text. -/
theorem seam (has : quoteAfter none as = none) (hc : as.getLast? = some c)
    (hd : bs.head? = some d) : Adjacent (as ++ bs) c d := by
  obtain ⟨front, rfl⟩ := List.getLast?_eq_some_iff.1 hc
  obtain ⟨back, rfl⟩ := List.head?_eq_some_iff.1 hd
  exact ⟨front, back, by simp, has⟩

/-- Neighbours are on one side of a cut or on both, if no quote is open there. -/
theorem append_cases (has : quoteAfter none as = none) (h : Adjacent (as ++ bs) c d) :
    Adjacent as c d ∨ Adjacent bs c d ∨ as.getLast? = some c ∧ bs.head? = some d := by
  obtain ⟨front, back, heq, hclosed⟩ := h
  rcases List.append_eq_append_iff.1 heq with ⟨mid, rfl, rfl⟩ | ⟨mid, rfl, hback⟩
  · refine .inr (.inl ⟨mid, back, rfl, ?_⟩)
    rwa [List.append_assoc, quoteAfter_append, has] at hclosed
  · rcases mid with _ | ⟨e, _ | ⟨e', mid⟩⟩
    · rw [List.append_nil] at has
      refine .inr (.inl ⟨[], back, hback.symm, ?_⟩)
      rwa [quoteAfter_append, has] at hclosed
    · have hparts := List.cons.inj hback
      refine .inr (.inr ⟨by rw [hparts.1, List.getLast?_concat], ?_⟩)
      rw [← show d :: back = bs from hparts.2]
      rfl
    · have hparts := List.cons.inj hback
      have hparts' := List.cons.inj (show d :: back = e' :: (mid ++ bs) from hparts.2)
      exact .inl ⟨front, mid, by rw [hparts.1, hparts'.1], hclosed⟩

theorem mem (h : Adjacent cs c d) : c ∈ cs ∧ d ∈ cs := by
  obtain ⟨front, back, rfl, -⟩ := h
  simp

/-- Neighbours other than blanks are not trimmed off. -/
theorem trim (h : Adjacent cs c d) (hc : Text.isBlank c = false) (hd : Text.isBlank d = false) :
    Adjacent (Text.trim cs) c d := by
  obtain ⟨front, back, rfl, hclosed⟩ := h
  have hback : Text.trimEnd (d :: back) = d :: Text.trimEnd back :=
    Text.trimEnd_around hd [] back
  have hfront : Text.trimStart (front ++ [c]) = Text.trimStart front ++ [c] :=
    Text.trimStart_around hc front []
  refine ⟨Text.trimStart front, Text.trimEnd back, ?_, ?_⟩
  · rw [Text.trim_around hc, hback]
  · rw [← hfront]
    exact quoteAfter_trimStart hclosed

end Adjacent

namespace Quiet

theorem left (h : Quiet (as ++ bs)) : Quiet as := fun c d hcd => h c d (hcd.append_right bs)

theorem right (has : quoteAfter none as = none) (h : Quiet (as ++ bs)) : Quiet bs :=
  fun c d hcd => h c d (hcd.append_left has)

theorem append (hclosed : quoteAfter none as = none) (has : Quiet as) (hbs : Quiet bs)
    (hseam : ∀ c d, as.getLast? = some c → bs.head? = some d → ¬ Clash c d) :
    Quiet (as ++ bs) := by
  intro c d hcd
  rcases hcd.append_cases hclosed with hcd | hcd | ⟨hc, hd⟩
  · exact has c d hcd
  · exact hbs c d hcd
  · exact hseam c d hc hd

theorem singleton (c : Char) : Quiet [c] := by
  rintro d e ⟨front, back, heq, -⟩ -
  have hlength := congrArg List.length heq
  simp only [List.length_append, List.length_cons, List.length_nil] at hlength
  omega

/-- Nothing clashes without quote marks. -/
theorem of_no_quote (h : ∀ c ∈ cs, isQuote c = false) : Quiet cs := by
  intro c d hcd hclash
  rcases hclash.quote with hquote | hquote
  · rw [h c hcd.mem.1] at hquote
    cases hquote
  · rw [h d hcd.mem.2] at hquote
    cases hquote

/-- Nothing clashes with operators and blanks. -/
theorem separated {mid : List Char} (hne : mid ≠ [])
    (hmid : ∀ c ∈ mid, operators.contains c = true ∨ Text.isBlank c = true)
    (hclosed : quoteAfter none as = none) (has : Quiet as) (hbs : Quiet bs) :
    Quiet (as ++ mid ++ bs) := by
  have hquote : ∀ c ∈ mid, isQuote c = false := fun c hc =>
    (hmid c hc).elim isQuote_of_operator isQuote_of_isBlank
  have hfront : Quiet (as ++ mid) := by
    refine has.append hclosed (.of_no_quote hquote) fun c d _ hd hclash => ?_
    have hoperand := (isOperandChar_eq_false (hmid d (List.mem_of_head? hd))).1
    rw [hclash.right] at hoperand
    cases hoperand
  refine hfront.append ?_ hbs fun c d hc _ hclash => ?_
  · rw [quoteAfter_append, hclosed]
    exact (mask_of_no_quote hquote).2
  · rw [List.getLast?_append_of_ne_nil as hne] at hc
    have hoperand := isOperandChar_eq_false (hmid c (List.mem_of_getLast? hc))
    rcases hclash.left with hleft | hleft
    · rw [hleft] at hoperand
      exact Bool.noConfusion hoperand.1
    · exact hoperand.2 hleft

end Quiet

/-! ## Formulas without groups -/

/-- A quote stays open in front of its second mark. -/
theorem quoteAfter_opened {q : Char} (h : q ∉ cs) : quoteAfter (some q) cs = some q := by
  induction cs with
  | nil => rfl
  | cons c cs ih =>
    rw [List.mem_cons, not_or] at h
    have hstep : stepQuote (some q) c = some q := by rw [stepQuote, if_neg (Ne.symm h.1)]
    change quoteAfter (stepQuote (some q) c) cs = some q
    rw [hstep, ih h.2]

/-- Between its marks, a quoted text shows no neighbours. -/
theorem quiet_quoted {q : Char} (isMark : isQuote q = true) (inside : q ∉ cs) :
    Quiet (q :: cs ++ [q]) := by
  rintro c d ⟨front, back, heq, hclosed⟩ -
  obtain ⟨e, opened, hopened⟩ : ∃ e opened, front ++ [c] = e :: opened :=
    List.exists_cons_of_ne_nil (by simp)
  have hsplit : q :: (cs ++ [q]) = e :: (opened ++ d :: back) := by
    rw [← List.cons_append, heq, ← List.cons_append, ← hopened]
    simp
  obtain ⟨rfl, hinner⟩ := List.cons.inj hsplit
  have hcs : cs = opened ++ (d :: back).dropLast := by
    rw [← List.dropLast_append_of_ne_nil (List.cons_ne_nil d back), ← hinner, List.dropLast_concat]
  have hstep : stepQuote none q = some q := by simp [stepQuote, isMark]
  rw [hopened] at hclosed
  change quoteAfter (stepQuote none q) opened = none at hclosed
  rw [hstep, quoteAfter_opened fun hmem => inside (hcs ▸ List.mem_append_left _ hmem)] at hclosed
  cases hclosed

theorem Leaf.quiet (l : Leaf) : Quiet l.text := by
  cases l with
  | number cs reads =>
    refine .of_no_quote fun c hc => ?_
    exact (mem_numeral reads c hc).elim isQuote_of_isWordPart isQuote_of_operator
  | quoted q cs isMark inside => exact quiet_quoted isMark inside
  | name cs identifier =>
    refine .of_no_quote fun c hc => isQuote_of_isWordPart ?_
    rw [isWordPart, isNameChar_of_isIdentifier identifier c hc, Bool.true_or]

theorem Operand.quiet : (o : Operand) → o.IsFlat → Quiet o.text
  | .leaf l, _ => l.quiet
  | .signed negative gap o, ho => by
    have hsign : ∀ c ∈ signSymbol negative :: gap.chars,
        operators.contains c = true ∨ Text.isBlank c = true := by
      intro c hc
      rcases List.mem_cons.1 hc with rfl | hc
      · exact .inl (operators_signSymbol negative)
      · exact .inr (gap.blank c hc)
    have hnil : Quiet [] := .of_no_quote fun c hc => absurd hc List.not_mem_nil
    exact hnil.separated (List.cons_ne_nil _ _) hsign rfl (Operand.quiet o ho)
  | .group _ _ _, ho => ho.elim

theorem Formula.quiet {s : Formula} (hs : Formula.IsFlat s) : Quiet (Formula.text s) := by
  induction s with
  | single o => exact o.quiet (hs o (List.mem_singleton_self o))
  | link o before op after rest ih =>
    have hparts : o.IsFlat ∧ ∀ o' ∈ rest.operands, o'.IsFlat := List.forall_mem_cons.1 hs
    have hoperation : ∀ c ∈ before.chars ++ op.symbol :: after.chars,
        operators.contains c = true ∨ Text.isBlank c = true := by
      intro c hc
      rcases List.mem_append.1 hc with hc | hc
      · exact .inr (before.blank c hc)
      · rcases List.mem_cons.1 hc with rfl | hc
        · exact .inl (operators_symbol op)
        · exact .inr (after.blank c hc)
    exact (o.quiet hparts.1).separated (by simp) hoperation o.closed (ih hparts.2)

variable {p : Precision} {names : Names}

/-- What is left of a text without the blanks around it clashes as the text does. -/
theorem Quiet.of_trim (h : Quiet (Text.trim cs)) : Quiet cs := by
  intro c d hcd hclash
  have hc : Text.isBlank c = false := by
    rcases hclash.left with hc | rfl
    · exact isBlank_of_isOperandChar hc
    · decide
  exact h c d (hcd.trim hc (isBlank_of_isOperandChar hclash.right)) hclash

theorem quiet_of_evaluateFlat (hnames : NamesIdentifiers names) {v : Value}
    (h : evaluateFlat p names cs = .ok v) : Quiet cs := by
  obtain ⟨s, hs, htext⟩ := grammatical_of_evaluateFlat hnames h
  exact .of_trim (htext ▸ Formula.quiet hs)

/-! ## Literals in the place of groups -/

/-- A literal begins with a minus sign or with a character of an operand, and ends with the
latter. -/
theorem ends_of_format {v : Value} {literal : List Char} (h : Literal.format v = .ok literal) :
    (∃ c, literal.head? = some c ∧ (c = '-' ∨ isOperandChar c = true)) ∧
      ∃ c, literal.getLast? = some c ∧ isOperandChar c = true := by
  match v with
  | .null =>
    cases h
    exact ⟨⟨'n', rfl, by decide⟩, 'l', rfl, by decide⟩
  | .bool true =>
    cases h
    exact ⟨⟨'t', rfl, by decide⟩, 'e', rfl, by decide⟩
  | .bool false =>
    cases h
    exact ⟨⟨'f', rfl, by decide⟩, 'e', rfl, by decide⟩
  | .number n =>
    cases h
    obtain ⟨negative, body, hplain, hne, hbody⟩ := exists_unsigned n
    rw [hplain]
    constructor
    · obtain ⟨c, body, rfl⟩ := List.exists_cons_of_ne_nil hne
      cases negative with
      | true => exact ⟨'-', rfl, .inl rfl⟩
      | false =>
        exact ⟨c, rfl, .inr (isOperandChar_of_isWordPart (hbody c List.mem_cons_self))⟩
    · refine ⟨body.getLast hne, ?_, isOperandChar_of_isWordPart (hbody _ (List.getLast_mem hne))⟩
      cases negative with
      | true => exact (List.getLast?_cons_of_ne_nil hne).trans (List.getLast?_eq_some_getLast hne)
      | false => exact List.getLast?_eq_some_getLast hne
  | .text s =>
    rw [Literal.format] at h
    split at h
    · next cs hcs =>
      cases h
      obtain ⟨q, isMark, -, rfl⟩ := exists_quoted hcs
      have hq := isOperandChar_of_isQuote isMark
      exact ⟨⟨q, rfl, .inr hq⟩, q, List.getLast?_concat, hq⟩
    · cases h
  | .list items => cases h

/-- A text is quiet if it is with a literal in the place of its last group. -/
theorem Quiet.of_splice {before inside after literal : List Char} {v : Value}
    (hgroup : lastGroup? cs = some (before, inside, after)) (hinside : Quiet inside)
    (hliteral : Literal.format v = .ok literal) (h : Quiet (before ++ literal ++ after)) :
    Quiet cs := by
  obtain ⟨rfl, hbefore, hopened⟩ := lastGroup?_eq_some hgroup
  obtain ⟨-, e, he, hoperand⟩ := ends_of_format hliteral
  have hclosed : quoteAfter none (before ++ literal) = none :=
    quoteAfter_append_closed hbefore (shows_literal hliteral).closed
  have hlast : (before ++ literal).getLast? = some e := by
    rw [List.getLast?_append, he, Option.some_or]
  have hopening : Quiet ('(' :: inside) := by
    refine (singleton '(').append rfl hinside fun c d hc _ hclash => ?_
    cases hc
    exact absurd hclash.left (by decide)
  have hfront : Quiet (before ++ '(' :: inside) := by
    refine h.left.left.append hbefore hopening fun c d _ hd hclash => ?_
    cases hd
    exact absurd hclash.right (by decide)
  -- Behind the group stands what stands behind the literal, which ends like an operand.
  have hback : Quiet (')' :: after) := by
    refine (singleton ')').append rfl (h.right hclosed) fun c d hc hd hclash => ?_
    cases hc
    have hquote : isQuote d = true := hclash.quote.resolve_left (by decide)
    exact h e d (.seam hclosed hlast hd) ⟨.inl hoperand, hclash.right, .inr hquote⟩
  refine hfront.append hopened hback fun c d _ hd hclash => ?_
  cases hd
  exact absurd hclash.right (by decide)

/-- **Texts that have values are quiet.** -/
theorem quiet_of_evaluateGroups (hnames : NamesIdentifiers names) {v : Value}
    (h : evaluateGroups p names cs = .ok v) : Quiet cs := by
  fun_induction evaluateGroups p names cs generalizing v with
  | case1 cs hgroup hlast => cases h
  | case2 cs hgroup before inside after hlast f hinside => cases h
  | case3 cs hgroup before inside after hlast w hinside f hliteral => cases h
  | case4 cs hgroup before inside after hlast w hinside literal hliteral ih =>
    exact .of_splice hlast (.of_trim (quiet_of_evaluateFlat hnames hinside)) hliteral
      (.of_trim (ih h))
  | case5 cs hgroup => exact quiet_of_evaluateFlat hnames h

end BusinessRules.Expression

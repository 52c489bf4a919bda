import BusinessRules.Proofs.Expression.Balance
import BusinessRules.Proofs.Expression.Masking
import BusinessRules.Proofs.Expression.Quiet
import BusinessRules.Proofs.Expression.Range

/-!
# The operation that is evaluated last

A text that shows an operator between two operands, outside its groups, is taken apart at an
operator in the end, so that its value is the result of an operation.  Before that its groups are
replaced by literals, and the operator has to stand between two operands in each of the texts that
result.  It does not if a literal makes a mantissa in front of the mark of a power of ten: `(1)e+3`
shows an operator behind the name `e`, and is the numeral `1e+3` with the literal in place.  For
this the mark has to stand behind the group without anything between them.  A literal itself never
ends as a power of ten begins.

## Main definitions

* `HasOperation`: a text with an operator between two operands, outside quotes and groups
* `Loose`: a masked text in which no operand begins directly behind a group
* `Firm`: a masked text behind which an operator stands between operands, whatever is in front
* `Steady`: a masked text behind which it does, whatever literals its groups are replaced by
* `Settled`: what stands in front of an operator that stays one

## Main statements

* `followsOperand_append`: what stands in front of a character outside words does not matter
* `Steady.splice`: a literal in the place of a group keeps a text steady
* `exists_operate`: the value of a text with an operation is the result of an operation
* `exists_rounded_of_operate`: the result of an operation is rounded
-/

namespace BusinessRules.Expression

open Literal (isQuote)

variable {c : Char} {as bs cs : List Char}

/-! ## What matters in front of an operator -/

/-- No mantissa runs on over a character outside words. -/
theorem startsWithMantissa_append (hc : isWordPart c = false) (as bs : List Char) :
    startsWithMantissa (as ++ c :: bs) = startsWithMantissa as := by
  have hmantissa : isMantissaChar c = false := by
    rw [isWordPart, Bool.or_eq_false_iff] at hc
    exact hc.2
  have hword : isWordChar c = false := by
    rw [Bool.eq_false_iff]
    intro h
    rw [isWordPart_of_isWordChar h] at hc
    cases hc
  have hrun : (as ++ c :: bs).takeWhile isMantissaChar = as.takeWhile isMantissaChar := by
    rw [List.takeWhile_append]
    split
    · next h =>
      rw [List.takeWhile_cons_of_neg (by simp [hmantissa]), List.append_nil,
        (List.takeWhile_prefix _).eq_of_length h]
    · rfl
  rw [startsWithMantissa, startsWithMantissa, hrun, Bool.eq_iff_iff, List.any_eq_true,
    List.any_eq_true]
  refine exists_congr fun n => and_congr_right fun hn => ?_
  have hlt : n < as.length :=
    Nat.lt_of_lt_of_le (List.mem_range.1 hn) (List.takeWhile_prefix _).length_le
  -- Behind the whole text, too, no word character follows.
  have hnext : (as ++ c :: bs)[n + 1]?.any isWordChar = as[n + 1]?.any isWordChar := by
    rcases Nat.lt_or_eq_of_le hlt with hlt | heq
    · rw [List.getElem?_append_left hlt]
    · rw [show n + 1 = as.length from heq, List.getElem?_append_right le_rfl, Nat.sub_self,
        List.getElem?_eq_none le_rfl]
      exact hword
  rw [hnext, List.take_append_of_le_length hlt]

theorem startsWithMantissa_cons (hc : isMantissaChar c = false) (cs : List Char) :
    startsWithMantissa (c :: cs) = false := by
  simp [startsWithMantissa, hc]

/-- A power of ten that is begun behind a character outside words is begun without it. -/
theorem endsInPowerMark_append (hc : isWordPart c = false)
    (hbs : ∃ d ∈ bs, Text.isBlank d = false) (as : List Char) :
    endsInPowerMark (as ++ c :: bs) = endsInPowerMark bs := by
  obtain ⟨d, hd, hblank⟩ := hbs
  obtain ⟨e, front, hbs⟩ : ∃ e front, bs.reverse = e :: front :=
    List.exists_cons_of_ne_nil (List.reverse_ne_nil_iff.2 (List.ne_nil_of_mem hd))
  have hreverse : (as ++ c :: bs).reverse = e :: (front ++ c :: as.reverse) := by
    rw [List.reverse_append, List.reverse_cons, hbs]
    simp
  rw [endsInPowerMark, endsInPowerMark, hreverse, hbs]
  simp only [List.head?_cons, Option.some.injEq, List.drop_one, List.tail_cons]
  by_cases hline : e = '\n'
  · -- A line break alone is blank, so that there is a character in front of it.
    have hne : front ≠ [] := by
      rintro rfl
      rw [← List.mem_reverse, hbs, List.mem_singleton] at hd
      rw [hd, hline] at hblank
      exact absurd hblank (by decide)
    obtain ⟨mark, rest, rfl⟩ := List.exists_cons_of_ne_nil hne
    simp only [if_pos hline, List.cons_append, startsWithMantissa_append hc]
  · simp only [if_neg hline, startsWithMantissa_append hc]

theorem endsInOperand_append (hbs : ∃ d ∈ bs, Text.isBlank d = false) (as : List Char) :
    endsInOperand (as ++ bs) = endsInOperand bs := by
  obtain ⟨d, hd, hblank⟩ := hbs
  obtain ⟨front, back, rfl⟩ := List.append_of_mem hd
  rw [endsInOperand, endsInOperand, ← List.append_assoc, Text.trimEnd_around hblank,
    Text.trimEnd_around hblank, List.getLast?_append_of_ne_nil _ (List.cons_ne_nil _ _),
    List.getLast?_append_of_ne_nil _ (List.cons_ne_nil _ _)]

/-- **What stands in front of a character outside words does not matter** to an operator behind. -/
theorem followsOperand_append (hc : isWordPart c = false)
    (hbs : ∃ d ∈ bs, Text.isBlank d = false) (as : List Char) :
    followsOperand (as ++ c :: bs) = followsOperand bs := by
  rw [followsOperand, followsOperand, endsInPowerMark_append hc hbs, ← List.singleton_append,
    ← List.append_assoc, endsInOperand_append hbs]

/-- A character outside words sees to the same thing itself, if not only blanks are left of the
text. -/
theorem followsOperand_cons (hc : isWordPart c = false)
    (h : ∃ d ∈ c :: bs, Text.isBlank d = false) (as : List Char) :
    followsOperand (as ++ c :: bs) = followsOperand (c :: bs) := by
  by_cases hbs : ∃ d ∈ bs, Text.isBlank d = false
  · rw [followsOperand_append hc hbs, ← List.nil_append (c :: bs), followsOperand_append hc hbs]
  · have hblanks : ∀ d ∈ bs, Text.isBlank d = true := fun d hd => by
      by_contra hblank
      exact hbs ⟨d, hd, by simpa using hblank⟩
    have hblank : Text.isBlank c = false := by
      obtain ⟨d, hd, hblank⟩ := h
      rcases List.mem_cons.1 hd with rfl | hd
      · exact hblank
      · exact absurd ⟨d, hd, hblank⟩ hbs
    have hmark : c = 'e' ∨ c = 'E' → ∀ cs, startsWithMantissa cs = false := by
      rintro (rfl | rfl) <;> exact absurd hc (by decide)
    have hfollows : ∀ as, followsOperand (as ++ c :: bs) = (!operators.contains c && c != '(') := by
      intro as
      have hpower := endsInPowerMark_eq_false hblank (fun h => hmark h as.reverse) ⟨bs, hblanks⟩
      have hends := endsInOperand_blanks (as ++ [c]) ⟨bs, hblanks⟩
      rw [List.append_assoc, List.singleton_append] at hpower hends
      rw [followsOperand, hpower, hends, endsInOperand_concat hblank, Bool.not_false, Bool.true_and]
    rw [hfollows as, ← List.nil_append (c :: bs), hfollows]

/-- Blanks in front of a text do not matter. -/
theorem followsOperand_blanks {blanks : List Char} (hblanks : ∀ d ∈ blanks, Text.isBlank d = true)
    (h : followsOperand (blanks ++ cs) = true) : followsOperand cs = true := by
  rcases List.eq_nil_or_concat blanks with rfl | ⟨front, d, rfl⟩
  · exact h
  · have hcs : ∃ e ∈ cs, Text.isBlank e = false := by
      by_contra hnone
      have hall : ∀ e ∈ cs, Text.isBlank e = true := fun e he => by
        by_contra hblank
        exact hnone ⟨e, he, by simpa using hblank⟩
      have hends : endsInOperand (front.concat d ++ cs) = false := by
        rw [endsInOperand_blanks _ ⟨cs, hall⟩, ← List.nil_append (front.concat d),
          endsInOperand_blanks _ ⟨_, hblanks⟩]
        rfl
      rw [followsOperand, hends, Bool.and_false] at h
      cases h
    have hd : isWordPart d = false := by
      by_contra hword
      have hblank := isBlank_of_isWordPart (by simpa using hword)
      rw [hblanks d (by simp)] at hblank
      cases hblank
    rwa [List.concat_eq_append, List.append_assoc, List.singleton_append,
      followsOperand_append hd hcs] at h

/-! ## Literals in front of an operator -/

/-- A masked text behind which an operator stands between operands, whatever is in front of it. -/
def Firm (bs : List Char) : Prop := ∀ as, followsOperand (as ++ bs) = true

theorem Firm.append (h : Firm bs) (as : List Char) : Firm (as ++ bs) := fun front => by
  rw [← List.append_assoc]
  exact h _

/-- The text of a number does not show the mark of a power of ten. -/
theorem ne_mark_of_mem_plain (n : Decimal) : ∀ c ∈ n.plain, c ≠ 'e' ∧ c ≠ 'E' := by
  have hdigit : ∀ {c : Char}, c.isDigit = true → c ≠ 'e' ∧ c ≠ 'E' := by
    rintro c hc
    constructor <;> rintro rfl <;> exact absurd hc (by decide)
  have hword : ∀ cs : List Char, cs.all (fun c => c != 'e' && c != 'E') = true →
      ∀ c ∈ cs, c ≠ 'e' ∧ c ≠ 'E' := fun cs hcs c hc => by
    simpa using List.all_eq_true.1 hcs c hc
  cases n with
  | finite negative n e =>
    intro c hc
    rcases mem_plain_finite negative n e c hc with hc | rfl | rfl
    · exact hdigit hc
    · decide
    · decide
  | infinite negative => exact mem_signed (by decide) (hword Decimal.infinityText (by decide))
  | undefined negative signaling payload =>
    refine mem_signed (by decide) fun c hc => ?_
    rw [Decimal.undefinedText, List.mem_append, List.mem_append] at hc
    rcases hc with (hc | hc) | hc
    · cases signaling with
      | false => cases hc
      | true => exact hword ['s'] (by decide) c hc
    · exact hword ['N', 'a', 'N'] (by decide) c hc
    · split at hc
      · cases hc
      · exact hdigit (isDigit_of_mem_digits hc)

/-- A literal ends in a character of an operand that is not the mark of a power of ten, or stands
behind one that belongs to no mantissa. -/
theorem exists_end_of_format {v : Value} {literal : List Char}
    (h : Literal.format v = .ok literal) : ∃ front c, mask literal = front ++ [c] ∧
      isOperandChar c = true ∧ (c = 'e' ∨ c = 'E' →
        ∃ front' d, front = front' ++ [d] ∧ isMantissaChar d = false) := by
  obtain ⟨-, c, hlast, hoperand⟩ := ends_of_format h
  rw [← getLast?_mask (shows_literal h).closed] at hlast
  obtain ⟨front, hfront⟩ := List.getLast?_eq_some_iff.1 hlast
  have hother : (c ≠ 'e' ∧ c ≠ 'E') → ∃ front c, mask literal = front ++ [c] ∧
      isOperandChar c = true ∧ (c = 'e' ∨ c = 'E' →
        ∃ front' d, front = front' ++ [d] ∧ isMantissaChar d = false) := fun hne =>
    ⟨front, c, hfront, hoperand, fun hmark => (hmark.elim hne.1 hne.2).elim⟩
  match v with
  | .null =>
    cases h
    exact ⟨['n', 'u', 'l'], 'l', by decide, by decide, fun hmark => absurd hmark (by decide)⟩
  | .bool true =>
    cases h
    exact ⟨['t', 'r', 'u'], 'e', by decide, by decide, fun _ => ⟨['t', 'r'], 'u', rfl, by decide⟩⟩
  | .bool false =>
    cases h
    exact ⟨['f', 'a', 'l', 's'], 'e', by decide, by decide,
      fun _ => ⟨['f', 'a', 'l'], 's', rfl, by decide⟩⟩
  | .number n =>
    refine hother ?_
    cases h
    rw [getLast?_mask (shows_literal (v := .number n) rfl).closed] at hlast
    exact ne_mark_of_mem_plain n c (List.mem_of_getLast? hlast)
  | .text s =>
    refine hother ?_
    rw [getLast?_mask (shows_literal h).closed] at hlast
    rw [Literal.format] at h
    split at h
    · next cs hcs =>
      cases h
      obtain ⟨q, isMark, -, rfl⟩ := exists_quoted hcs
      rw [List.getLast?_concat, Option.some.injEq] at hlast
      subst hlast
      exact ⟨ne_of_class isMark (by decide), ne_of_class isMark (by decide)⟩
    · cases h
  | .list items => cases h

/-- **Behind a literal an operator stands between operands**, whatever is in front of the
literal. -/
theorem firm_literal {v : Value} {literal : List Char} (h : Literal.format v = .ok literal)
    {blanks : List Char} (hblanks : ∀ c ∈ blanks, Text.isBlank c = true) :
    Firm (mask literal ++ blanks) := by
  obtain ⟨front, c, hmask, hoperand, hmark⟩ := exists_end_of_format h
  have hoperator : operators.contains c = false ∧ c ≠ '(' := by
    constructor
    · rw [Bool.eq_false_iff]
      intro hoperator
      rw [(isOperandChar_eq_false (.inl hoperator)).1] at hoperand
      cases hoperand
    · exact ne_of_class hoperand (by decide)
  intro as
  rw [hmask, ← List.append_assoc]
  refine followsOperand_of_last (isBlank_of_isOperandChar hoperand) hoperator.1 hoperator.2
    (fun hc => ?_) ⟨blanks, hblanks⟩
  obtain ⟨front', d, rfl, hd⟩ := hmark hc
  rw [← List.append_assoc, List.reverse_append, List.reverse_singleton, List.singleton_append]
  exact startsWithMantissa_cons hd _

/-! ## Texts whose groups are replaced -/

/-- A masked text behind which an operator stands between operands, whatever literals its groups are
replaced by: behind each closing parenthesis the text is firm, or blank, so that it is firm with a
literal in front. -/
structure Steady (masked : List Char) : Prop where
  follows : followsOperand masked = true
  behind : ∀ front back, masked = front ++ ')' :: back →
    (∀ c ∈ back, Text.isBlank c = true) ∨ Firm back

/-- A masked text in which no operand begins directly behind a group.  It may end directly in front
of one. -/
def Loose (masked : List Char) : Prop :=
  masked.IsChain fun c d => c = ')' → isOperandChar d = false

instance (masked : List Char) : Decidable (Loose masked) :=
  inferInstanceAs (Decidable (List.IsChain _ masked))

theorem Steady.of_loose {masked : List Char} (hfollows : followsOperand masked = true)
    (hloose : Loose masked) : Steady masked := by
  refine ⟨hfollows, fun front back heq => ?_⟩
  by_cases hblanks : ∀ c ∈ back, Text.isBlank c = true
  · exact .inl hblanks
  · push Not at hblanks
    obtain ⟨e, he, hblank⟩ := hblanks
    obtain ⟨d, rest, rfl⟩ := List.exists_cons_of_ne_nil (List.ne_nil_of_mem he)
    rw [Loose, heq, List.isChain_append, List.isChain_cons_cons] at hloose
    have hword : isWordPart d = false := by
      rw [Bool.eq_false_iff]
      intro hword
      rw [isOperandChar_of_isWordPart hword] at hloose
      exact Bool.noConfusion (hloose.2.1.1 rfl)
    have hbarrier := followsOperand_cons hword ⟨e, he, by simpa using hblank⟩
    refine .inr fun as => ?_
    rw [hbarrier as, ← hbarrier (front ++ [')']), List.append_assoc, List.singleton_append, ← heq]
    exact hfollows

/-- **A literal in the place of a group keeps a text steady.** -/
theorem Steady.splice {before inside after : List Char}
    (h : Steady (before ++ '(' :: inside ++ ')' :: after)) {v : Value} {literal : List Char}
    (hliteral : Literal.format v = .ok literal) : Steady (before ++ mask literal ++ after) := by
  have hfirm : ∀ back, (∀ c ∈ back, Text.isBlank c = true) ∨ Firm back →
      Firm (mask literal ++ back) := fun back hback =>
    hback.elim (firm_literal hliteral) fun hback => hback.append _
  have hclose : ')' ∉ mask literal := fun hmem =>
    ne_of_class ((shows_literal hliteral).all _ hmem) (by decide) rfl
  have hne : mask literal ≠ [] := by
    obtain ⟨front, c, hmask, -⟩ := exists_end_of_format hliteral
    simp [hmask]
  rw [List.append_assoc]
  refine ⟨hfirm after (h.behind (before ++ '(' :: inside) after rfl) before, ?_⟩
  intro front back heq
  have hreplaced : Replaced (mask literal) ('(' :: (inside ++ [')'])) (front ++ ')' :: back)
      (before ++ ('(' :: (inside ++ [')']) ++ after)) := heq ▸ .one before after
  -- The parenthesis is one of the text, in front of the group or behind it.
  obtain ⟨front', back', hold, -, hback⟩ := hreplaced.cut hne hclose
  rw [show before ++ ('(' :: (inside ++ [')']) ++ after) = before ++ '(' :: inside ++ ')' :: after
    by simp] at hold
  cases hback with
  | none => exact h.behind front' back hold
  | one mid rest =>
    have hrest := h.behind (front' ++ ')' :: mid ++ '(' :: inside) rest (by rw [hold]; simp)
    exact .inr ((hfirm rest hrest).append mid)

/-! ## The last operation -/

/-- A text with an operator between two operands, outside quotes and groups. -/
def HasOperation (cs : List Char) : Prop :=
  ∃ op i, operators.contains op = true ∧ (mask cs)[i]? = some op ∧ isBinary (mask cs) i = true ∧
    Balanced ((mask cs).take i)

/-- Where an operator stands between two operands, a text is taken apart. -/
theorem mainOperator?_ne_none {op : Char} (hop : operators.contains op = true) {masked : List Char}
    {i : Nat} (hi : masked[i]? = some op) (hbinary : isBinary masked i = true) :
    mainOperator? masked ≠ none := by
  intro hnone
  simp only [mainOperator?, Option.or_eq_none_iff, Option.map_eq_none_iff, firstBinary?,
    lastBinary?, List.find?_eq_none, List.mem_reverse, mem_occurrences] at hnone
  obtain ⟨hadd, hsub, hmul, hdiv⟩ := hnone
  rcases mem_operators hop with rfl | rfl | rfl | rfl
  · exact hadd i hi hbinary
  · exact hsub i hi hbinary
  · exact hmul i hi hbinary
  · exact hdiv i hi hbinary

variable {p : Precision} {names : Names}

/-- A text without groups that is taken apart has the result of an operation as its value. -/
theorem exists_operate_of_evaluateFlat (hmain : mainOperator? (mask cs) ≠ none) {v : Value}
    (h : evaluateFlat p names cs = .ok v) : ∃ op u w, operate p op u w = .ok v := by
  obtain ⟨⟨op, i⟩, hop⟩ := Option.ne_none_iff_exists'.1 hmain
  have hclose : (mask cs).contains ')' = false := by
    rw [Bool.eq_false_iff]
    intro hclose
    rw [evaluateFlat, if_pos hclose] at h
    cases h
  rw [evaluateFlat_operation hclose hop] at h
  split at h
  · cases h
  · next u hu =>
    split at h
    · cases h
    · next w hw => exact ⟨op, u, w, h⟩

/-- A text with an operator behind what an operator may follow is taken apart, trimmed or not. -/
theorem mainOperator?_trim_ne_none {front : List Char} {op : Char}
    (hop : operators.contains op = true) (hclosed : quoteAfter none front = none)
    (hfollows : followsOperand (mask front) = true) (back : List Char) :
    mainOperator? (mask (Text.trim (front ++ op :: back))) ≠ none := by
  obtain ⟨blanks, hblanks, htrim⟩ := Text.exists_trimStart front
  have hmaskfront : mask front = blanks ++ mask (Text.trimStart front) := by
    conv => lhs; rw [htrim]
    rw [mask_append (Shows.blanks (fun _ => id) ⟨blanks, hblanks⟩).closed,
      mask_blanks ⟨blanks, hblanks⟩]
  have hmask : mask (Text.trim (front ++ op :: back)) =
      mask (Text.trimStart front) ++ op :: mask (Text.trimEnd back) := by
    rw [Text.trim_around (isBlank_of_operator hop), mask_append (quoteAfter_trimStart hclosed),
      mask_cons (isQuote_of_operator hop)]
  rw [hmask]
  refine mainOperator?_ne_none (i := (mask (Text.trimStart front)).length) hop ?_ ?_
  · rw [List.getElem?_append_right le_rfl, Nat.sub_self, List.getElem?_cons_zero]
  · rw [isBinary, List.take_left]
    exact followsOperand_blanks hblanks (hmaskfront ▸ hfollows)

/-- A text that has a value has it with a literal in the place of the last group. -/
theorem exists_paste_of_ok {before inside after : List Char}
    (hlast : lastGroup? cs = some (before, inside, after)) {front back : List Char}
    (hfront : quoteAfter none (front ++ before) = none) (hback : '(' ∉ mask (after ++ back))
    {v : Value} (h : evaluateArithmetic p names (front ++ (cs ++ back)) = .ok v) :
    ∃ u literal, Literal.format u = .ok literal ∧
      evaluateArithmetic p names (front ++ ((before ++ literal ++ after) ++ back)) = .ok v := by
  have hgroup : evaluateArithmetic p names
      ((front ++ before) ++ '(' :: inside ++ ')' :: (after ++ back)) = _ :=
    evaluateArithmetic_group hfront (shows_inside hlast) hback
  have htext : (front ++ before) ++ '(' :: inside ++ ')' :: (after ++ back) =
      front ++ (cs ++ back) := by
    rw [(lastGroup?_eq_some hlast).1]
    simp
  rw [htext, h] at hgroup
  split at hgroup
  · cases hgroup
  · next u hu =>
    split at hgroup
    · cases hgroup
    · next literal hliteral =>
      refine ⟨u, literal, hliteral, ?_⟩
      rw [hgroup]
      simp

/-- What stands in front of an operator that stays one: no quote is open behind it, its parentheses
match, and it is steady. -/
structure Settled (front : List Char) : Prop where
  closed : quoteAfter none front = none
  balanced : Balanced (mask front)
  steady : Steady (mask front)

/-- A literal in the place of the last group leaves a text settled. -/
theorem Settled.paste {front before inside after literal : List Char} {v : Value}
    (h : Settled front) (hlast : lastGroup? front = some (before, inside, after))
    (hliteral : Literal.format v = .ok literal) : Settled (before ++ literal ++ after) := by
  obtain ⟨hcs, hbefore, hopened⟩ := lastGroup?_eq_some hlast
  have hshows := shows_literal hliteral
  have hafter : quoteAfter none after = none := by
    have hclosed := h.closed
    rwa [hcs, quoteAfter_append, hopened] at hclosed
  refine ⟨quoteAfter_append_closed (quoteAfter_append_closed hbefore hshows.closed) hafter, ?_, ?_⟩
  · rw [Balanced, depth_splice hlast hliteral]
    exact h.balanced
  · have hsteady := h.steady
    rw [(mask_group hlast).1] at hsteady
    rw [List.append_assoc, mask_append hbefore, mask_append hshows.closed, ← List.append_assoc]
    exact hsteady.splice hliteral

section Operator

variable {front back : List Char} {op : Char} (hop : operators.contains op = true)

include hop

theorem mask_operator_between (hclosed : quoteAfter none front = none) (back : List Char) :
    mask (front ++ op :: back) = mask front ++ ([op] ++ mask back) := by
  rw [mask_append hclosed, mask_cons (isQuote_of_operator hop), List.singleton_append]

/-- A group behind an operator is replaced. -/
theorem exists_paste_behind (hfront : Settled front) (hback : '(' ∈ mask back) {v : Value}
    (h : evaluateArithmetic p names (front ++ op :: back) = .ok v) :
    ∃ back', openings back' < openings back ∧
      evaluateArithmetic p names (front ++ op :: back') = .ok v := by
  have hclosed : quoteAfter none (front ++ [op]) = none :=
    quoteAfter_append_closed hfront.closed (Shows.operator (fun _ => id) hop).closed
  have hbalanced : Balanced (mask back) := by
    have hwhole := balanced_of_evaluateArithmetic h
    have hplain : Plain [op] := by
      constructor <;> exact fun hmem => ne_of_class hop (by decide) (List.mem_singleton.1 hmem).symm
    rwa [Balanced, mask_operator_between hop hfront.closed, depth_append, hfront.balanced,
      Option.bind_some, depth_append, depth_plain hplain, Option.bind_some] at hwhole
  obtain ⟨⟨before, inside, after⟩, hlast⟩ :=
    exists_lastGroup (by simpa [hasGroup] using hback) hbalanced
  have hbehind : '(' ∉ mask (after ++ []) := by
    rw [List.append_nil]
    exact not_mem_behind hlast
  obtain ⟨u, literal, hliteral, hvalue⟩ := exists_paste_of_ok hlast
    (quoteAfter_append_closed hclosed (lastGroup?_eq_some hlast).2.1) hbehind (by simpa using h)
  exact ⟨before ++ literal ++ after, openings_splice hlast hliteral, by simpa using hvalue⟩

/-- A group in front of an operator is replaced, if none is left behind it. -/
theorem exists_paste_before (hfront : Settled front) (hopen : '(' ∈ mask front)
    (hback : '(' ∉ mask back) {v : Value}
    (h : evaluateArithmetic p names (front ++ op :: back) = .ok v) :
    ∃ front', openings front' < openings front ∧ Settled front' ∧
      evaluateArithmetic p names (front' ++ op :: back) = .ok v := by
  obtain ⟨⟨before, inside, after⟩, hlast⟩ :=
    exists_lastGroup (by simpa [hasGroup] using hopen) hfront.balanced
  obtain ⟨hcs, hbefore, hopened⟩ := lastGroup?_eq_some hlast
  have hafter : quoteAfter none after = none := by
    have hclosed := hfront.closed
    rwa [hcs, quoteAfter_append, hopened] at hclosed
  have hbehind : '(' ∉ mask (after ++ op :: back) := by
    refine not_mem_mask_append hafter (not_mem_behind hlast) ?_
    rw [mask_cons (isQuote_of_operator hop), List.mem_cons, not_or]
    exact ⟨(ne_of_class hop (by decide)).symm, hback⟩
  obtain ⟨u, literal, hliteral, hvalue⟩ :=
    exists_paste_of_ok hlast (List.nil_append before ▸ hbefore) hbehind h
  exact ⟨before ++ literal ++ after, openings_splice hlast hliteral, hfront.paste hlast hliteral,
    hvalue⟩

/-- **The value of a text with an operator behind a settled one is the result of an operation.** -/
theorem exists_operate_of_settled (hfront : Settled front) {v : Value}
    (h : evaluateArithmetic p names (front ++ op :: back) = .ok v) :
    ∃ op u w, operate p op u w = .ok v := by
  -- The groups behind the operator are replaced first, then those in front of it.
  induction hn : openings front + openings back using Nat.strong_induction_on
    generalizing front back with
  | _ n ih =>
    subst hn
    by_cases hback : '(' ∈ mask back
    · obtain ⟨back', hlt, hvalue⟩ := exists_paste_behind hop hfront hback h
      exact ih _ (Nat.add_lt_add_left hlt _) hfront hvalue rfl
    by_cases hopen : '(' ∈ mask front
    · obtain ⟨front', hlt, hsettled, hvalue⟩ := exists_paste_before hop hfront hopen hback h
      exact ih _ (Nat.add_lt_add_right hlt _) hsettled hvalue rfl
    · have hnone : '(' ∉ mask (front ++ op :: back) := by
        rw [mask_operator_between hop hfront.closed, List.mem_append, List.mem_append,
          List.mem_singleton, not_or, not_or]
        exact ⟨hopen, (ne_of_class hop (by decide)).symm, hback⟩
      rw [evaluateArithmetic_of_no_opening hnone] at h
      exact exists_operate_of_evaluateFlat
        (mainOperator?_trim_ne_none hop hfront.closed hfront.steady.follows back) h

end Operator

/-- **The value of a text with an operation is the result of an operation**, if no operand begins
directly behind a group. -/
theorem exists_operate (hoperation : HasOperation cs) (hloose : Loose (mask cs)) {v : Value}
    (h : evaluateArithmetic p names cs = .ok v) : ∃ op u w, operate p op u w = .ok v := by
  obtain ⟨op, i, hop, hi, hbinary, hbalanced⟩ := hoperation
  obtain ⟨hclosed, hshown⟩ :=
    quoteAfter_take_mask hi (isQuote_of_operator hop) (ne_of_class hop (by decide))
  have hfront : Loose ((mask cs).take i) :=
    (List.isChain_append.1 ((List.take_append_drop i (mask cs)).symm ▸ hloose)).1
  have hsettled : Settled (cs.take i) := by
    refine ⟨hclosed, ?_, ?_⟩ <;> rw [mask_take]
    · exact hbalanced
    · exact .of_loose hbinary hfront
  rw [eq_append_of_getElem? hshown] at h
  exact exists_operate_of_settled hop hsettled h

/-- The same for the text of a compound assignment, whatever its right side is. -/
theorem exists_operate_of_compound {name : List Char} (hname : isIdentifier name = true) {op : Char}
    (hop : operators.contains op = true) {back : List Char} {v : Value}
    (h : evaluateArithmetic p names (name ++ ' ' :: op :: back) = .ok v) :
    ∃ op u w, operate p op u w = .ok v := by
  have hshows : Shows isNoParen (name ++ [' ']) :=
    ((Leaf.name name hname).shows isNoParen_of_isFlatChar).append
      (Shows.blanks isNoParen_of_isFlatChar Text.Blanks.space)
  have hplain : Plain (mask (name ++ [' '])) := not_mem_of_shows hshows
  have hmask : mask (name ++ [' ']) = name ++ [' '] := by
    obtain ⟨hmask, hclosed⟩ := mask_name (isNameChar_of_isIdentifier hname)
    rw [mask_append hclosed, hmask]
    exact congrArg (name ++ ·) (mask_blanks Text.Blanks.space)
  have hfollows : followsOperand (mask (name ++ [' '])) = true := by
    have hnone : endsInOperand [] = false := rfl
    rw [hmask]
    exact (binariesFrom_name hnone hname).2 Text.Blanks.space
  have hsettled : Settled (name ++ [' ']) :=
    ⟨hshows.closed, depth_plain hplain 0, hfollows, fun front back heq =>
      absurd (heq ▸ List.mem_append_right _ List.mem_cons_self) hplain.2⟩
  rw [show name ++ ' ' :: op :: back = name ++ [' '] ++ op :: back by simp] at h
  exact exists_operate_of_settled hop hsettled h

/-! ## Results of operations -/

/-- **The result of an operation is a number**, and rounded if it is finite. -/
theorem exists_rounded_of_operate {op : Char} {u w v : Value} (h : operate p op u w = .ok v) :
    ∃ x, v = .number x ∧ (x.IsFinite → x.Rounded p) := by
  have hresult : ∀ {r : Except ArithmeticFault Decimal}, ofArithmetic r = .ok v →
      (∀ x, r = .ok x → x.IsFinite → x.Rounded p) →
      ∃ x, v = .number x ∧ (x.IsFinite → x.Rounded p) := by
    intro r hr hrounded
    cases r with
    | error f => cases hr
    | ok x =>
      cases hr
      exact ⟨x, rfl, hrounded x rfl⟩
  rw [operate] at h
  split at h
  · exact hresult h fun x => Decimal.rounded_add
  · split at h
    · exact hresult h fun x => Decimal.rounded_sub
    · split at h
      · exact hresult h fun x => Decimal.rounded_mul
      · split at h
        · cases h
        · cases h
        · exact hresult h fun x => Decimal.rounded_div

end BusinessRules.Expression

import BusinessRules.Proofs.Expression.Grammar

/-!
# Operators and signs told apart

Whether an operator character stands between two operands is decided by what shows in front of it.
A pass over a mask that carries along what it has passed finds these places part by part, so it is
enough to know what it does to one operand: it finds nothing inside, and behind the operand and
any blanks the next operator counts.

## Main definitions

* `followsOperand`: whether an operator behind a masked text would stand between two operands
* `binariesFrom`: the operators of a masked text that stand between operands, with their places
* `Formula.places`: the operations of a formula, with their places in its text
* `Formula.OperationAt`, `Formula.OperandAt`: what stands at a place of the text of a formula

## Main statements

* `binariesFrom_formula`: the operators that count are the operations of the formula
* `mainOperator?_formula`: a flat formula is taken apart where the ladder takes it apart
* `isBinary_formula`: operators between operands and signs are told apart
-/

namespace BusinessRules.Expression

open Text (Blanks Tight)

/-- Whether an operator behind a masked text would stand between two operands. -/
def followsOperand (before : List Char) : Bool := !endsInPowerMark before && endsInOperand before

/-- The operators of a masked text that stand between operands, with their places, when the text
follows another one. -/
def binariesFrom (before : List Char) : List Char → List (Char × Nat)
  | [] => []
  | c :: cs =>
    if operators.contains c && followsOperand before then
      (c, before.length) :: binariesFrom (before ++ [c]) cs
    else binariesFrom (before ++ [c]) cs

theorem binariesFrom_append (before as bs : List Char) :
    binariesFrom before (as ++ bs) = binariesFrom before as ++ binariesFrom (before ++ as) bs := by
  induction as generalizing before with
  | nil => simp [binariesFrom]
  | cons c as ih =>
    rw [List.cons_append, binariesFrom, binariesFrom, ih, List.append_assoc, List.singleton_append]
    split
    · rw [List.cons_append]
    · rfl

theorem binariesFrom_of_no_operator (before : List Char) {cs : List Char}
    (h : ∀ c ∈ cs, operators.contains c = false) : binariesFrom before cs = [] := by
  induction cs generalizing before with
  | nil => rfl
  | cons c cs ih =>
    rw [binariesFrom, h c (by simp), Bool.false_and, if_neg Bool.false_ne_true]
    exact ih _ fun d hd => h d (by simp [hd])

/-- The pass sees what the test of single places sees. -/
theorem filter_occurrences (op : Char) (hop : operators.contains op = true)
    (before cs : List Char) :
    ((cs.zipIdx before.length).filterMap fun (d, i) => if d = op then some i else none).filter
        (isBinary (before ++ cs)) =
      ((binariesFrom before cs).filter fun b => b.1 = op).map (·.2) := by
  induction cs generalizing before with
  | nil => rfl
  | cons c cs ih =>
    have ih := ih (before ++ [c])
    rw [List.append_assoc, List.singleton_append, List.length_append, List.length_singleton] at ih
    have hbinary : isBinary (before ++ c :: cs) before.length = followsOperand before := by
      simp [isBinary, followsOperand]
    rw [List.zipIdx_cons, binariesFrom]
    by_cases hc : c = op
    · rw [List.filterMap_cons_some (b := before.length) (by simp [hc]), List.filter_cons, hbinary,
        ih, hc, hop, Bool.true_and]
      split
      · rw [List.filter_cons_of_pos (by simp), List.map_cons]
      · rfl
    · rw [List.filterMap_cons_none (by simp [hc]), ih]
      split
      · rw [List.filter_cons_of_neg (by simp [hc])]
      · rfl

theorem firstBinary?_eq {op : Char} (hop : operators.contains op = true) (masked : List Char) :
    firstBinary? op masked =
      ((binariesFrom [] masked).find? fun b => b.1 = op).map (·.2) := by
  rw [firstBinary?, ← List.head?_filter, ← List.head?_filter, ← List.head?_map,
    ← filter_occurrences op hop [] masked]
  rfl

theorem lastBinary?_eq {op : Char} (hop : operators.contains op = true) (masked : List Char) :
    lastBinary? op masked =
      ((binariesFrom [] masked).reverse.find? fun b => b.1 = op).map (·.2) := by
  rw [lastBinary?, ← List.head?_filter, ← List.head?_filter, ← List.head?_map, List.filter_reverse,
    List.filter_reverse, List.map_reverse, ← filter_occurrences op hop [] masked]
  rfl

/-! ## What ends in an operand -/

theorem endsInOperand_blanks (cs : List Char) (b : Blanks) :
    endsInOperand (cs ++ b.chars) = endsInOperand cs := by
  rw [endsInOperand, endsInOperand, Text.trimEnd_append b.blank]

theorem endsInOperand_concat {c : Char} (h : Text.isBlank c = false) (cs : List Char) :
    endsInOperand (cs ++ [c]) = (!operators.contains c && c != '(') := by
  rw [endsInOperand, Text.trimEnd_concat h, List.getLast?_concat]

/-- No operand ends behind an operator. -/
theorem endsInOperand_operator {c : Char} (h : operators.contains c = true) (cs : List Char) :
    endsInOperand (cs ++ [c]) = false := by
  rw [endsInOperand_concat (isBlank_of_operator h), h]
  rfl

theorem endsInOperand_word {c : Char} (h : isWordPart c = true) (cs : List Char) :
    endsInOperand (cs ++ [c]) = true := by
  have hparen : c ≠ '(' := ne_of_class h (by decide)
  rw [endsInOperand_concat (isBlank_of_isWordPart h), operators_of_isWordPart h,
    bne_iff_ne.2 hparen]
  rfl

/-- Where no operand ends, no word ends. -/
theorem not_word_of_endsInOperand {cs : List Char} (h : endsInOperand cs = false) {c : Char}
    (hc : cs.getLast? = some c) : isWordPart c = false := by
  by_contra hword
  obtain ⟨front, rfl⟩ := List.getLast?_eq_some_iff.1 hc
  rw [endsInOperand_word (by simpa using hword)] at h
  exact Bool.noConfusion h

theorem followsOperand_of_endsInOperand {cs : List Char} (h : endsInOperand cs = false) :
    followsOperand cs = false := by
  rw [followsOperand, h, Bool.and_false]

/-! ## What ends in the mark of a power of ten -/

theorem isWordPart_of_isWordChar {c : Char} (h : isWordChar c = true) : isWordPart c = true := by
  simp only [isWordChar, Bool.or_eq_true, decide_eq_true_eq] at h
  simp only [isWordPart, isNameChar, isMantissaChar, Bool.or_eq_true, decide_eq_true_eq]
  tauto

theorem isWordChar_of_isNameChar {c : Char} (h : isNameChar c = true) : isWordChar c = true := by
  simp only [isNameChar, Bool.or_eq_true, decide_eq_true_eq] at h
  simp only [isWordChar, Bool.or_eq_true, decide_eq_true_eq]
  exact .inl h

/-- Behind a character that is no blank, a power of ten can only begin with that character. -/
theorem endsInPowerMark_eq_false {c : Char} (hc : Text.isBlank c = false) {cs : List Char}
    (h : c = 'e' ∨ c = 'E' → startsWithMantissa cs.reverse = false) (b : Blanks) :
    endsInPowerMark (cs ++ [c] ++ b.chars) = false := by
  by_contra hends
  simp only [endsInPowerMark, Bool.not_eq_false] at hends
  split at hends
  · exact Bool.noConfusion hends
  next mark rest hmark =>
  simp only [Bool.and_eq_true, Bool.or_eq_true, decide_eq_true_eq] at hends
  have hblank : Text.isBlank mark = false := by
    rcases hends.1 with rfl | rfl <;> decide
  -- The text is a front, the mark and at most a line break, which trimming takes off.
  obtain ⟨tail, htail, hfull⟩ : ∃ tail : List Char, (∀ d ∈ tail, Text.isBlank d = true) ∧
      cs ++ [c] ++ b.chars = rest.reverse ++ [mark] ++ tail := by
    split at hmark
    · next hline =>
      obtain ⟨ds, hds⟩ := List.head?_eq_some_iff.1 hline
      rw [hds, List.drop_one, List.tail_cons] at hmark
      refine ⟨['\n'], fun d hd => by rw [List.mem_singleton.1 hd]; decide, ?_⟩
      rw [← List.reverse_reverse (cs ++ [c] ++ b.chars), hds, hmark]
      simp
    · refine ⟨[], by simp, ?_⟩
      rw [← List.reverse_reverse (cs ++ [c] ++ b.chars), hmark]
      simp
  have htrim := congrArg Text.trimEnd hfull
  rw [Text.trimEnd_append b.blank, Text.trimEnd_append htail, Text.trimEnd_concat hc,
    Text.trimEnd_concat hblank] at htrim
  obtain ⟨hcs, hcm⟩ := List.append_inj' htrim rfl
  cases hcm
  rw [hcs, List.reverse_reverse, hends.2] at h
  exact Bool.noConfusion (h hends.1)

/-- A mantissa and the mark of a power of ten, where no word ends in front of them. -/
theorem endsInPowerMark_eq_true {before mantissa : List Char} {mark : Char}
    (hmark : mark = 'e' ∨ mark = 'E') (hmantissa : isMantissa mantissa = true)
    (hbefore : ∀ c, before.getLast? = some c → isWordPart c = false) :
    endsInPowerMark (before ++ mantissa ++ [mark]) = true := by
  have hline : mark ≠ '\n' := by
    rcases hmark with rfl | rfl <;> decide
  have hreverse : (before ++ mantissa ++ [mark]).reverse =
      mark :: (mantissa.reverse ++ before.reverse) := by simp
  have hstarts : startsWithMantissa (mantissa.reverse ++ before.reverse) = true := by
    simp only [isMantissa, Bool.and_eq_true, List.all_eq_true, decide_eq_true_eq] at hmantissa
    obtain ⟨⟨hall, hany⟩, hcount⟩ := hmantissa
    have hlast : ∀ c, before.reverse.head? = some c → isWordPart c = false := by
      intro c hc
      exact hbefore c (List.getLast?_eq_head?_reverse ▸ hc)
    -- Read backwards, the run of characters of mantissas ends where the mantissa begins.
    have hrun : (mantissa.reverse ++ before.reverse).takeWhile isMantissaChar =
        mantissa.reverse := by
      rw [List.takeWhile_append_of_pos fun c hc => hall c (List.mem_reverse.1 hc)]
      rcases hb : before.reverse with _ | ⟨d, ds⟩
      · rw [List.takeWhile_nil, List.append_nil]
      · have hd := hlast d (by rw [hb]; rfl)
        rw [List.takeWhile_cons_of_neg, List.append_nil]
        intro hm
        rw [isWordPart, hm, Bool.or_true] at hd
        exact Bool.noConfusion hd
    have hpos : 0 < mantissa.length := by
      rcases mantissa with _ | ⟨d, ds⟩
      · exact absurd hany (by simp)
      · exact Nat.succ_pos _
    rw [startsWithMantissa, hrun, List.length_reverse, List.any_eq_true]
    refine ⟨mantissa.length - 1, by rw [List.mem_range]; omega, ?_⟩
    rw [Nat.sub_add_cancel hpos, List.take_left' (List.length_reverse ..),
      List.getElem?_append_right (by rw [List.length_reverse]), List.length_reverse,
      Nat.sub_self, ← List.head?_eq_getElem?]
    have hmantissa : isMantissa mantissa.reverse = true := by
      simp only [isMantissa, Bool.and_eq_true, List.all_eq_true, decide_eq_true_eq,
        List.count_reverse, List.any_reverse, List.mem_reverse]
      exact ⟨⟨hall, hany⟩, hcount⟩
    rw [hmantissa, Bool.true_and, Bool.not_eq_true']
    rcases hb : before.reverse.head? with _ | d
    · rfl
    · have hd := hlast d hb
      rw [Option.any_some]
      by_contra hw
      rw [isWordPart_of_isWordChar (by simpa using hw)] at hd
      exact Bool.noConfusion hd
  rw [endsInPowerMark, hreverse, if_neg (by simpa using hline)]
  rcases hmark with rfl | rfl <;> simpa using hstarts

/-- No digit of any script is a letter of ASCII. -/
theorem isMantissaChar_of_isNameStart {c : Char} (h : isNameStart c = true) :
    isMantissaChar c = false := by
  have hapart : ∀ z ∈ Text.digitZeros, z + 9 < 65 ∨ 122 < z := by decide
  have hbounds : 65 ≤ c.toNat ∧ c.toNat ≤ 122 := by
    simp only [isNameStart, Bool.or_eq_true, decide_eq_true_eq, Char.isAlpha, Char.isUpper,
      Char.isLower, Bool.and_eq_true, UInt32.le_iff_toNat_le] at h
    rcases h with (⟨h₁, h₂⟩ | ⟨h₁, h₂⟩) | rfl
    · exact ⟨h₁, Nat.le_trans h₂ (by decide)⟩
    · exact ⟨Nat.le_trans (by decide) h₁, h₂⟩
    · decide
  have hdot : c ≠ '.' := by
    rintro rfl
    exact absurd hbounds.1 (by decide)
  rw [isMantissaChar, decide_eq_false hdot, Bool.or_false, Text.isDigit, Text.digitValue?,
    Option.isSome_map, Option.isSome_eq_false_iff, Option.isNone_iff_eq_none, List.find?_eq_none]
  intro z hz
  have := hapart z hz
  rw [Bool.and_eq_true, decide_eq_true_eq, decide_eq_true_eq]
  omega

/-- No mantissa ends behind the first character of a name, or where no word ends. -/
theorem startsWithMantissa_name {before front : List Char}
    (hbefore : ∀ c, before.getLast? = some c → isWordPart c = false)
    (hfront : front = [] ∨ isIdentifier front = true) :
    startsWithMantissa (before ++ front).reverse = false := by
  rw [List.reverse_append]
  rcases hfront with rfl | hname
  · have hrun : before.reverse.takeWhile isMantissaChar = [] := by
      rcases hb : before.reverse with _ | ⟨d, ds⟩
      · rfl
      · have hd := hbefore d (List.getLast?_eq_head?_reverse ▸ hb ▸ rfl)
        rw [List.takeWhile_cons_of_neg]
        intro hm
        rw [isWordPart, hm, Bool.or_true] at hd
        exact Bool.noConfusion hd
    rw [List.reverse_nil, List.nil_append, startsWithMantissa, hrun]
    rfl
  · -- The run ends at the first character of the name at the latest.  In front of what could be a
    -- mantissa stands another character of the name, which rules it out.
    have hall := isNameChar_of_isIdentifier hname
    obtain ⟨d, ds, rfl⟩ : ∃ d ds, front = d :: ds :=
      List.exists_cons_of_ne_nil (by rintro rfl; exact Bool.noConfusion hname)
    have hd : isMantissaChar d = false := by
      rw [isIdentifier, Bool.and_eq_true] at hname
      exact isMantissaChar_of_isNameStart hname.1
    have hrun : (((d :: ds).reverse ++ before.reverse).takeWhile isMantissaChar).length ≤
        ds.length := by
      rw [List.reverse_cons, List.append_assoc, List.singleton_append, List.takeWhile_append]
      split
      · rw [List.takeWhile_cons_of_neg (by simp [hd]), List.append_nil, List.length_reverse]
      · exact (List.takeWhile_prefix _).length_le.trans (by rw [List.length_reverse])
    rw [startsWithMantissa, List.any_eq_false]
    intro n hn
    rw [List.mem_range] at hn
    have hlt : n + 1 < (d :: ds).reverse.length := by
      rw [List.length_reverse, List.length_cons]
      omega
    rw [List.getElem?_append_left hlt, List.getElem?_eq_getElem hlt, Option.any_some,
      isWordChar_of_isNameChar (hall _ (List.mem_reverse.1 (List.getElem_mem hlt))), Bool.not_true,
      Bool.and_false]
    exact Bool.false_ne_true

/-! ## The pass over operands -/

/-- Behind a word that ends in a character other than the mark of a power of ten, an operator
stands between operands. -/
theorem followsOperand_of_last {before front : List Char} {c : Char}
    (hblank : Text.isBlank c = false) (hoperator : operators.contains c = false) (hparen : c ≠ '(')
    (hpower : c = 'e' ∨ c = 'E' → startsWithMantissa (before ++ front).reverse = false)
    (b : Blanks) : followsOperand (before ++ (front ++ [c]) ++ b.chars) = true := by
  rw [followsOperand, ← List.append_assoc, endsInPowerMark_eq_false hblank hpower,
    endsInOperand_blanks, endsInOperand_concat hblank, hoperator, bne_iff_ne.2 hparen]
  rfl

theorem exists_last {P : Char → Prop} {cs : List Char} (hne : cs ≠ []) (h : ∀ c ∈ cs, P c) :
    ∃ front c, cs = front ++ [c] ∧ P c := by
  obtain ⟨front, c, hcs⟩ := (List.eq_nil_or_concat cs).resolve_left hne
  exact ⟨front, c, by rw [hcs, List.concat_eq_append], h c (by rw [hcs]; simp)⟩

theorem isMantissaChar_of_isMantissa {cs : List Char} (h : isMantissa cs = true) :
    cs ≠ [] ∧ ∀ c ∈ cs, isMantissaChar c = true := by
  simp only [isMantissa, Bool.and_eq_true, List.all_eq_true] at h
  refine ⟨?_, h.1.1⟩
  rintro rfl
  exact Bool.noConfusion h.1.2

/-- A numeral ends in a digit or a point. -/
theorem exists_last_of_numeral {cs : List Char} (reads : (Numeral.read? cs).isSome = true) :
    ∃ front c, cs = front ++ [c] ∧ isMantissaChar c = true := by
  obtain ⟨sign, mantissa, power, rfl, -, hmantissa, hpower⟩ := exists_numeral_parts reads
  rcases hpower with rfl | ⟨mark, powerSign, digits, rfl, -, -, hne, hdigits⟩
  · obtain ⟨hne, hall⟩ := isMantissaChar_of_isMantissa hmantissa
    obtain ⟨front, c, rfl, hc⟩ := exists_last hne hall
    exact ⟨sign ++ front, c, by simp, hc⟩
  · obtain ⟨front, c, rfl, hc⟩ := exists_last hne hdigits
    exact ⟨sign ++ (mantissa ++ (mark :: powerSign ++ front)), c, by simp,
      by simp [isMantissaChar, hc]⟩

theorem binariesFrom_sign {before sign : List Char} (h : followsOperand before = false)
    (hsign : IsSign sign) : binariesFrom before sign = [] := by
  rcases hsign with rfl | rfl | rfl <;> simp [binariesFrom, h]

/-- Behind a sign no operand ends, if none did in front of it. -/
theorem endsInOperand_sign {before sign : List Char} (h : endsInOperand before = false)
    (hsign : IsSign sign) : endsInOperand (before ++ sign) = false := by
  rcases hsign with rfl | rfl | rfl
  · rwa [List.append_nil]
  · exact endsInOperand_operator (by decide) _
  · exact endsInOperand_operator (by decide) _

/-- No operator shows in a quoted text. -/
theorem binariesFrom_quoted (before : List Char) {q : Char} {cs : List Char}
    (isMark : Literal.isQuote q = true) (inside : q ∉ cs) :
    binariesFrom before (mask (q :: cs ++ [q])) = [] ∧
      ∀ b : Blanks, followsOperand (before ++ mask (q :: cs ++ [q]) ++ b.chars) = true := by
  have hq := operators_of_isQuote isMark
  rw [mask_quoted isMark inside]
  constructor
  · refine binariesFrom_of_no_operator _ fun c hc => ?_
    simp only [List.mem_cons, List.mem_append, List.mem_replicate, List.not_mem_nil,
      or_false] at hc
    rcases hc with rfl | ⟨-, rfl⟩ | rfl
    · exact hq
    · decide
    · exact hq
  · rw [← List.cons_append]
    refine followsOperand_of_last (isBlank_of_isQuote isMark) hq ?_ ?_
    · exact ne_of_class isMark (by decide)
    · rintro (rfl | rfl) <;> exact absurd isMark (by decide)

section

variable {before : List Char} (hbefore : endsInOperand before = false)

include hbefore

/-- The signs of a numeral, that of its power of ten included, are no operators. -/
theorem binariesFrom_number {cs : List Char} (reads : (Numeral.read? cs).isSome = true) :
    binariesFrom before cs = [] ∧
      ∀ b : Blanks, followsOperand (before ++ cs ++ b.chars) = true := by
  constructor
  · obtain ⟨sign, mantissa, power, rfl, hsign, hmantissa, hpower⟩ := exists_numeral_parts reads
    have hword : ∀ c, isMantissaChar c = true → operators.contains c = false := by
      intro c hc
      exact operators_of_isWordPart (by rw [isWordPart, hc, Bool.or_true])
    rw [binariesFrom_append, binariesFrom_append,
      binariesFrom_sign (followsOperand_of_endsInOperand hbefore) hsign,
      binariesFrom_of_no_operator _ fun c hc =>
        hword c ((isMantissaChar_of_isMantissa hmantissa).2 c hc), List.nil_append, List.nil_append]
    rcases hpower with rfl | ⟨mark, powerSign, digits, rfl, hmark, hpowerSign, -, hdigits⟩
    · rfl
    · -- The sign of the power follows the mantissa and the mark, which is why it is none.
      have hfollows : followsOperand (before ++ sign ++ mantissa ++ [mark]) = false := by
        rw [followsOperand, endsInPowerMark_eq_true hmark hmantissa fun c hc =>
          not_word_of_endsInOperand (endsInOperand_sign hbefore hsign) hc]
        rfl
      have hmark' : operators.contains mark = false := by
        rcases hmark with rfl | rfl <;> decide
      rw [List.cons_append, ← List.singleton_append, binariesFrom_append, binariesFrom_append,
        binariesFrom_of_no_operator _ fun c hc => by rw [List.mem_singleton.1 hc, hmark'],
        binariesFrom_sign hfollows hpowerSign,
        binariesFrom_of_no_operator _ fun c hc =>
          hword c (by rw [isMantissaChar, hdigits c hc, Bool.true_or])]
      rfl
  · obtain ⟨front, c, rfl, hc⟩ := exists_last_of_numeral reads
    have hword : isWordPart c = true := by rw [isWordPart, hc, Bool.or_true]
    refine followsOperand_of_last (isBlank_of_isWordPart hword) (operators_of_isWordPart hword)
      ?_ ?_
    · exact ne_of_class hword (by decide)
    · rintro (rfl | rfl) <;> exact absurd hc (by decide)

/-- A name holds no operator, and it is no unfinished numeral even if it ends like one. -/
theorem binariesFrom_name {cs : List Char} (identifier : isIdentifier cs = true) :
    binariesFrom before cs = [] ∧
      ∀ b : Blanks, followsOperand (before ++ cs ++ b.chars) = true := by
  have hword : ∀ c ∈ cs, isWordPart c = true := by
    intro c hc
    rw [isWordPart, isNameChar_of_isIdentifier identifier c hc, Bool.true_or]
  refine ⟨binariesFrom_of_no_operator _ fun c hc => operators_of_isWordPart (hword c hc), ?_⟩
  obtain ⟨front, c, rfl, hc⟩ := exists_last (by rintro rfl; exact Bool.noConfusion identifier) hword
  refine followsOperand_of_last (isBlank_of_isWordPart hc) (operators_of_isWordPart hc) ?_ ?_
  · exact ne_of_class hc (by decide)
  · intro _
    refine startsWithMantissa_name (fun d hd => not_word_of_endsInOperand hbefore hd) ?_
    rcases front with _ | ⟨d, ds⟩
    · exact .inl rfl
    · rw [List.cons_append, isIdentifier, List.all_append, Bool.and_eq_true, Bool.and_eq_true]
        at identifier
      exact .inr (by rw [isIdentifier, identifier.1, identifier.2.1]; rfl)

theorem Leaf.binariesFrom (l : Leaf) : binariesFrom before (mask l.text) = [] ∧
    ∀ b : Blanks, followsOperand (before ++ mask l.text ++ b.chars) = true := by
  cases l with
  | number cs reads =>
    have hmask : mask cs = cs := (mask_of_no_quote fun c hc => by
      rcases mem_numeral reads c hc with h | h
      · exact isQuote_of_isWordPart h
      · exact isQuote_of_operator h).1
    rw [Leaf.text, hmask]
    exact binariesFrom_number hbefore reads
  | quoted q cs isMark inside => exact binariesFrom_quoted before isMark inside
  | name cs identifier =>
    have hmask : mask cs = cs := (mask_of_no_quote fun c hc => isQuote_of_isWordPart (by
      rw [isWordPart, isNameChar_of_isIdentifier identifier c hc, Bool.true_or])).1
    rw [Leaf.text, hmask]
    exact binariesFrom_name hbefore identifier

end

/-- **No operator counts inside an operand without groups, and one behind it does.** -/
theorem Operand.binariesFrom : (o : Operand) → o.IsFlat → {before : List Char} →
    endsInOperand before = false → binariesFrom before (mask o.text) = [] ∧
      ∀ b : Blanks, followsOperand (before ++ mask o.text ++ b.chars) = true
  | .leaf l, _, _, hbefore => l.binariesFrom hbefore
  | .signed negative gap o, h, before, hbefore => by
    have hsign := operators_signSymbol negative
    have hmask : mask (Operand.signed negative gap o).text =
        [signSymbol negative] ++ (gap.chars ++ mask o.text) := by
      rw [Operand.text, ← List.singleton_append, List.append_assoc,
        mask_append (Shows.operator (fun _ => id) hsign).closed, mask_operator hsign,
        mask_append (Shows.blanks (fun _ => id) gap).closed, mask_blanks]
    -- An operand may still begin behind the sign, so that the induction goes on there.
    have hopen : endsInOperand (before ++ [signSymbol negative] ++ gap.chars) = false := by
      rw [endsInOperand_blanks, endsInOperand_operator hsign]
    obtain ⟨hnone, hfollows⟩ := Operand.binariesFrom o h hopen
    have hone : Expression.binariesFrom before [signSymbol negative] = [] := by
      simp [Expression.binariesFrom, followsOperand_of_endsInOperand hbefore]
    rw [hmask]
    constructor
    · rw [binariesFrom_append, binariesFrom_append, hone, hnone,
        binariesFrom_of_no_operator _ fun c hc => operators_of_isBlank (gap.blank c hc)]
      rfl
    · intro b
      rw [← List.append_assoc, ← List.append_assoc, hfollows b]
  | .group _ _ _, h, _, _ => h.elim

/-! ## The operations of a formula -/

/-- The operations of a formula, with their places when its text begins at a given place. -/
def Formula.places (n : Nat) : Formula → List (Char × Nat)
  | .single _ => []
  | .link o before op after rest =>
    let place := n + o.text.length + before.chars.length
    (op.symbol, place) :: Formula.places (place + 1 + after.chars.length) rest

/-- **The operators that count are the operations of the formula.** -/
theorem binariesFrom_formula (s : Formula) (hs : Formula.IsFlat s) {before : List Char}
    (hbefore : endsInOperand before = false) :
    binariesFrom before (mask (Formula.text s)) = Formula.places before.length s := by
  -- Whether an operator counts depends on the text in front of it, which grows with each link.
  induction s generalizing before with
  | single o =>
    exact (o.binariesFrom (hs o (by simp [Sequence.operands])) hbefore).1
  | link o gap op after rest ih =>
    have ho : o.IsFlat := hs o (by simp [Sequence.operands])
    have hop := operators_symbol op
    have hmask : mask (Formula.text (.link o gap op after rest)) =
        mask o.text ++
          (gap.chars ++ ([op.symbol] ++ (after.chars ++ mask (Formula.text rest)))) := by
      rw [Formula.text, List.append_assoc, List.append_assoc, List.cons_append,
        mask_append (o.shows (fun _ => id) (.inl ho)).closed,
        mask_append (Shows.blanks (fun _ => id) gap).closed, mask_blanks, ← List.singleton_append,
        mask_append (Shows.operator (fun _ => id) hop).closed, mask_operator hop,
        mask_append (Shows.blanks (fun _ => id) after).closed, mask_blanks]
    obtain ⟨hnone, hfollows⟩ := o.binariesFrom ho hbefore
    have hrest : endsInOperand
        (before ++ mask o.text ++ gap.chars ++ [op.symbol] ++ after.chars) = false := by
      rw [endsInOperand_blanks, endsInOperand_operator hop]
    have hone : binariesFrom (before ++ mask o.text ++ gap.chars) [op.symbol] =
        [(op.symbol, (before ++ mask o.text ++ gap.chars).length)] := by
      rw [binariesFrom, hop, hfollows gap, Bool.and_self, if_pos rfl, binariesFrom]
    rw [hmask, binariesFrom_append, hnone, binariesFrom_append,
      binariesFrom_of_no_operator _ fun c hc => operators_of_isBlank (gap.blank c hc),
      binariesFrom_append, hone, binariesFrom_append,
      binariesFrom_of_no_operator _ fun c hc => operators_of_isBlank (after.blank c hc),
      ih (fun o' ho' => hs o' (by simp [Sequence.operands, ho'])) hrest, Formula.places]
    simp [Nat.add_assoc, Nat.add_comm 1]

theorem symbol_inj {a b : Operation} : a.symbol = b.symbol ↔ a = b := by
  cases a <;> cases b <;> decide

/-- The place of an operation that splits a formula. -/
def Formula.place (t : Sequence.Split Operand) : Nat :=
  (Formula.text t.left).length + t.before.chars.length

theorem find?_places (s : Formula) (op : Operation) (n : Nat) :
    ((Formula.places n s).find? fun b => b.1 = op.symbol).map (·.2) =
      (s.firstSplit? op).map fun t => n + Formula.place t := by
  induction s generalizing n with
  | single o => rfl
  | link o before o' after rest ih =>
    rw [Formula.places, Sequence.firstSplit?]
    by_cases h : o' = op
    · rw [if_pos h, List.find?_cons_of_pos (by simp [h]), Option.map_some, Option.map_some,
        Formula.place, Formula.text, Nat.add_assoc]
    · rw [if_neg h, List.find?_cons_of_neg (by simpa [symbol_inj] using h), ih, Option.map_map]
      congr 1
      funext t
      simp only [Function.comp_apply, Formula.place, Formula.text, List.length_append,
        List.length_cons]
      omega

theorem find?_reverse_places (s : Formula) (op : Operation) (n : Nat) :
    ((Formula.places n s).reverse.find? fun b => b.1 = op.symbol).map (·.2) =
      (s.lastSplit? op).map fun t => n + Formula.place t := by
  induction s generalizing n with
  | single o => rfl
  | link o before o' after rest ih =>
    have hmap : ((rest.lastSplit? op).map fun t : Sequence.Split Operand =>
        n + o.text.length + before.chars.length + 1 + after.chars.length + Formula.place t) =
        ((rest.lastSplit? op).map fun t => { t with left := .link o before o' after t.left }).map
          fun t => n + Formula.place t := by
      rw [Option.map_map]
      congr 1
      funext t
      simp only [Function.comp_apply, Formula.place, Formula.text, List.length_append,
        List.length_cons]
      omega
    rw [Formula.places, Sequence.lastSplit?, List.reverse_cons, List.find?_append, Option.map_or,
      ih, hmap, Option.map_or]
    congr 1
    by_cases h : o' = op
    · rw [if_pos h, List.find?_cons_of_pos (by simp [h]), Option.map_some, Option.map_some,
        Formula.place, Formula.text, Nat.add_assoc]
    · rw [if_neg h, List.find?_cons_of_neg (by simpa [symbol_inj] using h)]
      rfl

/-- **A flat formula is taken apart where the ladder takes it apart.** -/
theorem mainOperator?_formula (s : Formula) (hs : Formula.IsFlat s) :
    mainOperator? (mask (Formula.text s)) =
      s.mainSplit?.map fun t => (t.1.symbol, Formula.place t.2) := by
  have hfirst : ∀ op : Operation, firstBinary? op.symbol (mask (Formula.text s)) =
      (s.firstSplit? op).map Formula.place := by
    intro op
    rw [firstBinary?_eq (operators_symbol op), binariesFrom_formula s hs rfl, find?_places]
    simp
  have hlast : ∀ op : Operation, lastBinary? op.symbol (mask (Formula.text s)) =
      (s.lastSplit? op).map Formula.place := by
    intro op
    rw [lastBinary?_eq (operators_symbol op), binariesFrom_formula s hs rfl, find?_reverse_places]
    simp
  have hadd := hfirst .add
  have hsub := hlast .sub
  have hmul := hfirst .mul
  have hdiv := hlast .div
  simp only [Operation.symbol] at hadd hsub hmul hdiv
  rw [mainOperator?, hadd, hsub, hmul, hdiv, Sequence.mainSplit?]
  simp only [Option.map_or, Option.map_map]
  rfl

/-! ## The classification of signs -/

/-- An operation of a formula, with the place of its symbol in the text. -/
def Formula.OperationAt (s : Formula) (op : Operation) (i : Nat) : Prop :=
  ∃ left before after right, s = Sequence.join left before op after right ∧
    i = (Formula.text left).length + before.chars.length

/-- An operand of a formula, with the place where it begins in the text. -/
def Formula.OperandAt : Formula → Operand → Nat → Prop
  | .single a, o, n => o = a ∧ n = 0
  | .link a before _ after rest, o, n => (o = a ∧ n = 0) ∨
    ∃ m, n = a.text.length + before.chars.length + 1 + after.chars.length + m ∧
      Formula.OperandAt rest o m

section Places

variable {op : Operation} {i n : Nat}

theorem not_operationAt_single (o : Operand) : ¬ Formula.OperationAt (.single o) op i := by
  rintro ⟨left, before, after, right, h, -⟩
  cases left <;> cases h

/-- An operation of a formula is the first one or belongs to the rest. -/
theorem operationAt_link {o : Operand} {before after : Blanks} {op' : Operation} {rest : Formula} :
    Formula.OperationAt (.link o before op' after rest) op i ↔
      (op = op' ∧ i = o.text.length + before.chars.length) ∨
      ∃ k, i = o.text.length + before.chars.length + 1 + after.chars.length + k ∧
        Formula.OperationAt rest op k := by
  constructor
  · rintro ⟨left, b, a, right, h, rfl⟩
    cases left with
    | single o' =>
      cases h
      exact .inl ⟨rfl, rfl⟩
    | link o' b' op'' a' left =>
      cases h
      refine .inr ⟨_, ?_, left, b, a, right, rfl, rfl⟩
      simp only [Formula.text, List.length_append, List.length_cons]
      omega
  · rintro (⟨rfl, rfl⟩ | ⟨k, rfl, left, b, a, right, rfl, rfl⟩)
    · exact ⟨.single o, before, after, rest, rfl, rfl⟩
    · refine ⟨.link o before op' after left, b, a, right, rfl, ?_⟩
      simp only [Formula.text, List.length_append, List.length_cons]
      omega

theorem mem_places {s : Formula} :
    (op.symbol, i) ∈ Formula.places n s ↔ ∃ k, i = n + k ∧ Formula.OperationAt s op k := by
  induction s generalizing n with
  | single o =>
    rw [Formula.places]
    exact iff_of_false List.not_mem_nil fun ⟨k, _, h⟩ => not_operationAt_single o h
  | link o before op' after rest ih =>
    rw [Formula.places, List.mem_cons, ih, Prod.mk.injEq, symbol_inj]
    simp only [operationAt_link]
    constructor
    · rintro (⟨rfl, rfl⟩ | ⟨k, rfl, h⟩)
      · exact ⟨_, Nat.add_assoc .., .inl ⟨rfl, rfl⟩⟩
      · exact ⟨_, by omega, .inr ⟨k, rfl, h⟩⟩
    · rintro ⟨_, rfl, ⟨rfl, rfl⟩ | ⟨k, rfl, h⟩⟩
      · exact .inl ⟨rfl, (Nat.add_assoc ..).symm⟩
      · exact .inr ⟨k, by omega, h⟩

/-- No operation stands inside an operand. -/
theorem not_operationAt_of_operandAt {s : Formula} {o : Operand} (h : Formula.OperandAt s o n)
    {k : Nat} (hk : k < o.text.length) : ¬ Formula.OperationAt s op (n + k) := by
  induction s generalizing n with
  | single a => exact not_operationAt_single a
  | link a before op' after rest ih =>
    rw [operationAt_link]
    rcases h with ⟨rfl, rfl⟩ | ⟨m, rfl, h⟩
    · rintro (⟨-, heq⟩ | ⟨k', heq, -⟩) <;> omega
    · rintro (⟨-, heq⟩ | ⟨k', heq, hop⟩)
      · omega
      · rw [show k' = m + k by omega] at hop
        exact ih h hop

end Places

/-- The pass finds the operators that the test of single places finds. -/
theorem mem_binariesFrom {op : Char} (hop : operators.contains op = true) {masked : List Char}
    {i : Nat} : (op, i) ∈ binariesFrom [] masked ↔
      i ∈ occurrences op masked ∧ isBinary masked i = true := by
  have hfilter : (occurrences op masked).filter (isBinary masked) = _ :=
    filter_occurrences op hop [] masked
  rw [← List.mem_filter, hfilter]
  simp

/-- What is found in an ordered list comes first among what is looked for. -/
theorem find?_ordered {r : Nat → Nat → Prop} (hrefl : ∀ i, r i i)
    (hantisymm : ∀ i j, r i j → r j i → i = j) {l : List Nat} (hl : l.Pairwise r) {p : Nat → Bool}
    {i : Nat} :
    l.find? p = some i ↔ (i ∈ l ∧ p i = true) ∧ ∀ j, j ∈ l ∧ p j = true → r i j := by
  have hfirst : ∀ {i}, l.find? p = some i → ∀ j, j ∈ l ∧ p j = true → r i j := by
    rintro i h j ⟨hj, hpj⟩
    obtain ⟨-, front, back, rfl, hfront⟩ := List.find?_eq_some_iff_append.1 h
    rw [List.pairwise_append, List.pairwise_cons] at hl
    rcases List.mem_append.1 hj with hj | hj
    · exact absurd hpj (by simpa using hfront j hj)
    · rcases List.mem_cons.1 hj with rfl | hj
      · exact hrefl j
      · exact hl.2.1.1 j hj
  constructor
  · intro h
    exact ⟨⟨List.mem_of_find?_eq_some h, List.find?_some h⟩, hfirst h⟩
  · rintro ⟨⟨hi, hpi⟩, hle⟩
    rcases hfound : l.find? p with _ | k
    · exact absurd hpi (List.find?_eq_none.1 hfound i hi)
    · have hk := hle k ⟨List.mem_of_find?_eq_some hfound, List.find?_some hfound⟩
      rw [hantisymm k i (hfirst hfound i ⟨hi, hpi⟩) hk]

/-- The first place where an operator stands between operands is the least one. -/
theorem firstBinary?_eq_some {op : Char} {masked : List Char} {i : Nat} :
    firstBinary? op masked = some i ↔ (i ∈ occurrences op masked ∧ isBinary masked i = true) ∧
      ∀ j, j ∈ occurrences op masked ∧ isBinary masked j = true → i ≤ j :=
  find?_ordered Nat.le_refl (fun _ _ => Nat.le_antisymm)
    ((occurrences_sorted op masked).imp Nat.le_of_lt)

theorem lastBinary?_eq_some {op : Char} {masked : List Char} {i : Nat} :
    lastBinary? op masked = some i ↔ (i ∈ occurrences op masked ∧ isBinary masked i = true) ∧
      ∀ j, j ∈ occurrences op masked ∧ isBinary masked j = true → j ≤ i := by
  have hsorted : (occurrences op masked).reverse.Pairwise (· ≥ ·) :=
    List.pairwise_reverse.2 ((occurrences_sorted op masked).imp Nat.le_of_lt)
  have hfound := find?_ordered (r := (· ≥ ·)) Nat.le_refl (fun _ _ h h' => Nat.le_antisymm h' h)
    hsorted (p := isBinary masked) (i := i)
  simp only [List.mem_reverse] at hfound
  exact hfound

/-- **Operators and signs are told apart.**  In the text of a formula without groups, an operator
character outside quotes counts as standing between two operands exactly where an operation of the
formula stands, so that no sign of an operand counts, nor the sign of a power of ten.  The first and
the last place that are found for an operator are those of its first and its last operation, and
none is found if the formula has no such operation. -/
theorem isBinary_formula (s : Formula) (hs : Formula.IsFlat s) (op : Operation) :
    (∀ i, Formula.OperationAt s op i ↔
      (mask (Formula.text s))[i]? = some op.symbol ∧ isBinary (mask (Formula.text s)) i = true) ∧
    (∀ o n k, Formula.OperandAt s o n → k < o.text.length →
      (mask (Formula.text s))[n + k]? = some op.symbol →
        isBinary (mask (Formula.text s)) (n + k) = false) ∧
    (∀ i, firstBinary? op.symbol (mask (Formula.text s)) = some i ↔
      Formula.OperationAt s op i ∧ ∀ j, Formula.OperationAt s op j → i ≤ j) ∧
    (∀ i, lastBinary? op.symbol (mask (Formula.text s)) = some i ↔
      Formula.OperationAt s op i ∧ ∀ j, Formula.OperationAt s op j → j ≤ i) ∧
    (firstBinary? op.symbol (mask (Formula.text s)) = none ↔
      ∀ i, ¬ Formula.OperationAt s op i) ∧
    (lastBinary? op.symbol (mask (Formula.text s)) = none ↔
      ∀ i, ¬ Formula.OperationAt s op i) := by
  have hplace : ∀ i, Formula.OperationAt s op i ↔
      i ∈ occurrences op.symbol (mask (Formula.text s)) ∧
        isBinary (mask (Formula.text s)) i = true := by
    intro i
    rw [← mem_binariesFrom (operators_symbol op), binariesFrom_formula s hs rfl, mem_places]
    simp
  refine ⟨fun i => by rw [hplace, mem_occurrences], fun o n k ho hk hshown => ?_, fun i => ?_,
    fun i => ?_, ?_, ?_⟩
  · by_contra hbinary
    rw [Bool.not_eq_false] at hbinary
    exact not_operationAt_of_operandAt ho hk
      ((hplace _).2 ⟨mem_occurrences.2 hshown, hbinary⟩)
  · simp only [firstBinary?_eq_some, hplace]
  · simp only [lastBinary?_eq_some, hplace]
  · simp only [firstBinary?, List.find?_eq_none, hplace, not_and]
  · simp only [lastBinary?, List.find?_eq_none, List.mem_reverse, hplace, not_and]

/-- A name that ends like the mantissa of a numeral, signs in front of numerals and texts, and a
power of ten. -/
def signSample : Formula :=
  .link (.leaf (.name "x1e".toList (by decide))) .none .sub .none <|
  .link (.leaf (.number ".5e-1".toList (by decide))) .space .sub .space <|
  .link (.signed true .none (.leaf (.number "1e-2".toList (by decide)))) .none .mul .none <|
  .single (.signed false .none (.leaf (.quoted '\'' "a-b".toList rfl (by decide))))

/-- Of the minus signs of the sample two are operations, at the places where they are found. -/
theorem isBinary_signSample :
    Formula.text signSample = "x1e-.5e-1 - -1e-2*+'a-b'".toList ∧ Formula.IsFlat signSample ∧
      Formula.OperationAt signSample .sub 3 ∧ Formula.OperationAt signSample .sub 10 ∧
      ∀ i ∈ [7, 12, 15, 21], ¬ Formula.OperationAt signSample .sub i := by
  have hflat : Formula.IsFlat signSample := by
    simp [Formula.IsFlat, signSample, Sequence.operands, Operand.IsFlat]
  have hplaces := (isBinary_formula signSample hflat .sub).1
  refine ⟨by decide, hflat, (hplaces 3).2 (by decide +kernel), (hplaces 10).2 (by decide +kernel),
    fun i hi h => ?_⟩
  have hnone : ∀ i ∈ [7, 12, 15, 21], ¬ ((mask (Formula.text signSample))[i]? = some '-' ∧
      isBinary (mask (Formula.text signSample)) i = true) := by
    decide +kernel
  exact hnone i hi ((hplaces i).1 h)

end BusinessRules.Expression

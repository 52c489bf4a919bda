import BusinessRules.Proofs.Expression.Logic

/-!
# Texts cut at characters that show

The evaluator takes a text apart at characters of its mask, trims the parts, and puts literals in
the place of groups.  None of this changes what the parts show: a mask falls into the masks of the
parts and the characters at which it is cut.

## Main statements

* `mask_cut`: a text cut at a character that shows
* `mask_trim`: what trimming takes off a mask
* `mask_group`: the mask around and inside the last group that opens
* `shows_literal`: what the literals of values show
-/

namespace BusinessRules.Expression

open Text (Blanks)

/-! ## Cuts -/

/-- A character other than a quote mark shows in front of anything. -/
theorem mask_cons {c : Char} (h : Literal.isQuote c = false) (cs : List Char) :
    mask (c :: cs) = c :: mask cs := by
  obtain ⟨hmask, hclosed⟩ : mask [c] = [c] ∧ quoteAfter none [c] = none :=
    mask_of_no_quote fun d hd => List.mem_singleton.1 hd ▸ h
  rw [← List.singleton_append, mask_append hclosed, hmask]
  rfl

/-- Characters of names show. -/
theorem mask_name {cs : List Char} (h : ∀ c ∈ cs, isNameChar c = true) :
    mask cs = cs ∧ quoteAfter none cs = none :=
  mask_of_no_quote fun c hc => isQuote_of_isWordPart (by rw [isWordPart, h c hc, Bool.true_or])

/-- **A text cut at a character that shows**, and that is neither a quote mark nor the filler. -/
theorem mask_cut {cs : List Char} {i : Nat} {c : Char} (h : (mask cs)[i]? = some c)
    (hquote : Literal.isQuote c = false) (hfiller : c ≠ filler) :
    quoteAfter none (cs.take i) = none ∧
      mask cs = mask (cs.take i) ++ c :: mask (cs.drop (i + 1)) := by
  obtain ⟨hclosed, hc⟩ := quoteAfter_take_mask h hquote hfiller
  refine ⟨hclosed, ?_⟩
  conv => lhs; rw [eq_append_of_getElem? hc]
  rw [mask_append hclosed, mask_cons hquote]

/-- What shows of a prefix shows of the whole text. -/
theorem mask_prefix (as bs : List Char) : ∃ back, mask (as ++ bs) = mask as ++ back :=
  ⟨_, by rw [mask_eq_maskFrom, maskFrom_append, ← mask_eq_maskFrom]⟩

theorem head?_mask (cs : List Char) : (mask cs).head? = cs.head? := by
  rw [mask_eq_maskFrom]
  cases cs <;> rfl

/-- Where no quote is open at the end, the last character shows. -/
theorem getLast?_mask {cs : List Char} (h : quoteAfter none cs = none) :
    (mask cs).getLast? = cs.getLast? := by
  rcases List.eq_nil_or_concat cs with rfl | ⟨front, c, rfl⟩
  · rfl
  · rw [List.concat_eq_append, quoteAfter_append] at h
    change stepQuote (quoteAfter none front) c = none at h
    have hshown : maskChar (quoteAfter none front) c = c := by
      rcases hopened : quoteAfter none front with _ | q
      · rfl
      · rw [hopened, stepQuote] at h
        rw [maskChar, if_pos]
        by_contra hne
        rw [if_neg hne] at h
        cases h
    rw [List.concat_eq_append, mask_eq_maskFrom, maskFrom_append, List.getLast?_concat]
    change (maskFrom none front ++ [maskChar (quoteAfter none front) c]).getLast? = some c
    rw [hshown, List.getLast?_concat]

/-- No quote is open in front of a last character that shows and is no quote mark. -/
theorem closed_of_concat {cs : List Char} {c : Char} (h : quoteAfter none (cs ++ [c]) = none)
    (hquote : Literal.isQuote c = false) (hfiller : c ≠ filler) : quoteAfter none cs = none := by
  have hlast := getLast?_mask h
  rw [List.getLast?_concat, List.getLast?_eq_getElem?, length_mask, List.length_append,
    List.length_singleton, Nat.add_sub_cancel] at hlast
  have hopened := (quoteAfter_take_mask hlast hquote hfiller).1
  rwa [List.take_left] at hopened

/-- What shows is there, or is the filler. -/
theorem mem_mask {cs : List Char} {c : Char} (h : c ∈ mask cs) : c ∈ cs ∨ c = filler := by
  rw [mask_eq_maskFrom] at h
  revert h
  generalize none = opened
  induction cs generalizing opened with
  | nil => exact .inl
  | cons d cs ih =>
    intro h
    rw [maskFrom, List.mem_cons] at h
    rcases h with rfl | h
    · cases opened with
      | none => exact .inl List.mem_cons_self
      | some q =>
        rw [maskChar]
        split
        · exact .inl List.mem_cons_self
        · exact .inr rfl
    · exact (ih _ h).imp_left (List.mem_cons_of_mem d)

/-- Blanks inside quotes show as fillers. -/
theorem maskFrom_blanks (opened : Option Char) {bs : List Char}
    (h : ∀ c ∈ bs, Text.isBlank c = true) :
    ∀ c ∈ maskFrom opened bs, Text.isBlank c = true ∨ c = filler := by
  induction bs generalizing opened with
  | nil =>
    intro c hc
    cases hc
  | cons b bs ih =>
    intro c hc
    rw [maskFrom, List.mem_cons] at hc
    rcases hc with rfl | hc
    · cases opened with
      | none => exact .inl (h b List.mem_cons_self)
      | some q =>
        rw [maskChar]
        split
        · exact .inl (h b List.mem_cons_self)
        · exact .inr rfl
    · exact ih _ (fun d hd => h d (List.mem_cons_of_mem b hd)) c hc

/-- **Trimming takes blanks off a mask**, or fillers that stand for blanks behind an open quote
mark. -/
theorem mask_trim (cs : List Char) : ∃ front back, mask cs = front ++ mask (Text.trim cs) ++ back ∧
    ∀ c ∈ front ++ back, Text.isBlank c = true ∨ c = filler := by
  obtain ⟨bs, bs', hbs, hbs', hcs⟩ := Text.exists_trim cs
  obtain ⟨hshown, hclosed⟩ := mask_of_no_quote fun c hc => isQuote_of_isBlank (hbs c hc)
  refine ⟨bs, maskFrom (quoteAfter none (Text.trim cs)) bs', ?_, ?_⟩
  · conv => lhs; rw [hcs]
    rw [mask_append hclosed, hshown, mask_eq_maskFrom, maskFrom_append, ← mask_eq_maskFrom,
      List.append_assoc]
  · intro c hc
    rcases List.mem_append.1 hc with hc | hc
    · exact .inl (hbs c hc)
    · exact maskFrom_blanks _ hbs' c hc

/-- Trimming makes no connective. -/
theorem separates_trim {k : Connective} {cs : List Char} (h : Separates k (mask (Text.trim cs))) :
    Separates k (mask cs) := by
  obtain ⟨front, back, hmask, -⟩ := mask_trim cs
  rw [hmask]
  exact h.append front back

/-! ## Operators -/

/-- The operator at which a mask is taken apart shows at its place. -/
theorem getElem?_of_mainOperator? {masked : List Char} {op : Char} {i : Nat}
    (h : mainOperator? masked = some (op, i)) :
    masked[i]? = some op ∧ operators.contains op = true := by
  simp only [mainOperator?, Option.or_eq_some_iff, Option.map_eq_some_iff, Prod.mk.injEq] at h
  rcases h with ⟨j, hj, rfl, rfl⟩ |
    ⟨-, ⟨j, hj, rfl, rfl⟩ | ⟨-, ⟨j, hj, rfl, rfl⟩ | ⟨-, j, hj, rfl, rfl⟩⟩⟩
  · exact ⟨getElem?_of_firstBinary? hj, by decide⟩
  · exact ⟨getElem?_of_lastBinary? hj, by decide⟩
  · exact ⟨getElem?_of_firstBinary? hj, by decide⟩
  · exact ⟨getElem?_of_lastBinary? hj, by decide⟩

/-- A text cut at the operator at which it is taken apart. -/
theorem mask_operation {cs : List Char} {op : Char} {i : Nat}
    (h : mainOperator? (mask cs) = some (op, i)) :
    mask cs = mask (cs.take i) ++ op :: mask (cs.drop (i + 1)) := by
  obtain ⟨hshown, hop⟩ := getElem?_of_mainOperator? h
  exact (mask_cut hshown (isQuote_of_operator hop) (ne_of_class hop (by decide))).2

/-- A text cut behind its sign. -/
theorem mask_signed {cs rest : List Char} {sign : Char} (h : signed? cs = some (sign, rest)) :
    operators.contains sign = true ∧ mask cs = sign :: mask rest := by
  unfold signed? at h
  split at h
  · split at h
    · next hsign =>
      cases h
      have hop : operators.contains sign = true := by
        rw [Bool.or_eq_true, decide_eq_true_eq, decide_eq_true_eq] at hsign
        rcases hsign with rfl | rfl <;> decide
      exact ⟨hop, mask_cons (isQuote_of_operator hop) _⟩
    · cases h
  · cases h

/-- A text that is found begins where it is found. -/
theorem prefix_of_indexFrom? {part whole : List Char} {i j : Nat}
    (h : Text.indexFrom? part whole i = some j) : i ≤ j ∧ part.IsPrefix (whole.drop (j - i)) := by
  induction whole generalizing i with
  | nil =>
    rw [Text.indexFrom?] at h
    split at h
    · next hempty =>
      cases h
      rw [List.isEmpty_iff] at hempty
      exact ⟨le_rfl, hempty ▸ List.nil_prefix⟩
    · cases h
  | cons c whole ih =>
    rw [Text.indexFrom?] at h
    split at h
    · next hprefix =>
      cases h
      rw [Nat.sub_self]
      exact ⟨le_rfl, List.isPrefixOf_iff_prefix.1 hprefix⟩
    · obtain ⟨hle, hfound⟩ := ih h
      refine ⟨Nat.le_of_succ_le hle, ?_⟩
      rwa [show j - i = j - (i + 1) + 1 by omega, List.drop_succ_cons]

/-- Characters that show at the start of a mask can be cut off. -/
theorem mask_of_prefix {part cs : List Char} (hpart : ∀ c ∈ part, Literal.isQuote c = false)
    (h : part.IsPrefix (mask cs)) : mask cs = part ++ mask (cs.drop part.length) := by
  induction part generalizing cs with
  | nil => rfl
  | cons c part ih =>
    cases cs with
    | nil => exact absurd (List.prefix_nil.1 h) (List.cons_ne_nil c part)
    | cons d cs =>
      have hd : d = c := by
        rw [mask_eq_maskFrom, maskFrom, List.cons_prefix_cons] at h
        exact h.1.symm
      subst hd
      have hquote := hpart d List.mem_cons_self
      rw [mask_cons hquote, List.cons_prefix_cons] at h
      rw [mask_cons hquote, ih (fun e he => hpart e (List.mem_cons_of_mem d he)) h.2]
      rfl

/-- A text cut around a comparison operator. -/
theorem mask_comparison {cs : List Char} {op : Comparison} {i : Nat}
    (h : mainComparison? (mask cs) = some (op, i)) :
    mask cs =
      mask (cs.take i) ++ op.symbol.toList ++ mask (cs.drop (i + op.symbol.length)) := by
  obtain ⟨op', -, hfound⟩ := List.exists_of_findSome?_eq_some h
  obtain ⟨j, hj, heq⟩ := Option.map_eq_some_iff.1 hfound
  cases heq
  have hsymbol := isComparisonChar_of_symbol op
  have hprefix := (prefix_of_indexFrom? hj).2
  rw [Nat.sub_zero] at hprefix
  obtain ⟨c, rest, hc⟩ := List.exists_cons_of_ne_nil (symbol_ne_nil op)
  have hcompare : isComparisonChar c = true := hsymbol c (hc ▸ List.mem_cons_self)
  have hshown : (mask cs)[i]? = some c := by
    obtain ⟨back, hback⟩ := hprefix
    rw [← List.head?_drop, ← hback, hc]
    rfl
  -- The text is cut in front of the operator, whose characters all show.
  have hclosed := (mask_cut hshown (isSymbolChar_of_isComparisonChar hcompare).1
    (ne_of_class hcompare (by decide))).1
  have hcut : mask cs = mask (cs.take i) ++ mask (cs.drop i) := by
    rw [← mask_append hclosed, List.take_append_drop]
  have hlength : (mask (cs.take i)).length = i := by
    have := lt_of_getElem?_mask hshown
    rw [length_mask, List.length_take]
    omega
  rw [hcut, List.drop_left' hlength] at hprefix
  rw [hcut, mask_of_prefix (fun d hd => (isSymbolChar_of_isComparisonChar (hsymbol d hd)).1)
    hprefix, List.drop_drop, String.length_toList, List.append_assoc]

/-! ## Groups -/

/-- Behind the last occurrence there is none. -/
theorem le_of_getLast?_occurrences {c : Char} {masked : List Char} {i k : Nat}
    (h : (occurrences c masked).getLast? = some i) (hk : masked[k]? = some c) : k ≤ i := by
  obtain ⟨front, hfront⟩ := List.getLast?_eq_some_iff.1 h
  have hsorted := occurrences_sorted c masked
  rw [← mem_occurrences, hfront, List.mem_append, List.mem_singleton] at hk
  rw [hfront, List.pairwise_append] at hsorted
  rcases hk with hk | rfl
  · exact Nat.le_of_lt (hsorted.2.2 k hk i (List.mem_singleton_self i))
  · exact Nat.le_refl k

theorem le_of_find?_occurrences {c : Char} {masked : List Char} {i j k : Nat}
    (h : (occurrences c masked).find? (i < ·) = some j) (hk : masked[k]? = some c) (hik : i < k) :
    j ≤ k := by
  obtain ⟨-, front, back, hsplit, hfront⟩ := List.find?_eq_some_iff_append.1 h
  have hsorted := occurrences_sorted c masked
  rw [← mem_occurrences, hsplit, List.mem_append, List.mem_cons] at hk
  rw [hsplit, List.pairwise_append, List.pairwise_cons] at hsorted
  rcases hk with hk | rfl | hk
  · have := hfront k hk
    simp [hik] at this
  · exact Nat.le_refl k
  · exact Nat.le_of_lt (hsorted.2.1.1 k hk)

/-- **The mask around and inside the last group that opens.**  Nothing inside shows a
parenthesis. -/
theorem mask_group {cs before inside after : List Char}
    (h : lastGroup? cs = some (before, inside, after)) :
    mask cs = mask before ++ '(' :: mask inside ++ ')' :: mask after ∧
      '(' ∉ mask inside ∧ ')' ∉ mask inside := by
  obtain ⟨hcs, hbefore, hinside⟩ := lastGroup?_eq_some h
  simp only [lastGroup?, Option.bind_eq_some_iff, Option.map_eq_some_iff, Prod.mk.injEq] at h
  obtain ⟨i, hi, j, hj, htake, hmid, -⟩ := h
  have hmask : mask cs = mask before ++ '(' :: mask inside ++ ')' :: mask after := by
    rw [hcs, mask_append hinside, mask_cons (by decide), mask_append hbefore, mask_cons (by decide)]
  have hilt := lt_of_getElem?_mask (mem_occurrences.1 (List.mem_of_getLast? hi))
  have hilength : before.length = i := by
    rw [← htake, List.length_take]
    omega
  have hjlength : i + 1 + inside.length ≤ j ∨ inside = [] := by
    rw [← hmid, ← List.length_eq_zero_iff, List.length_drop, List.length_take]
    omega
  -- A parenthesis inside would show behind the last opening one and in front of the first closing
  -- one behind that.
  have hplace : ∀ c ∈ mask inside, ∃ k, i < k ∧ k < j ∧ (mask cs)[k]? = some c := by
    intro c hc
    obtain ⟨k, hk⟩ := List.getElem?_of_mem hc
    have hklt := lt_of_getElem?_mask hk
    refine ⟨i + 1 + k, by omega, ?_, ?_⟩
    · rcases hjlength with hjlength | rfl
      · omega
      · cases hklt
    · rw [hmask, List.append_assoc, List.getElem?_append_right (by rw [length_mask]; omega),
        length_mask, hilength, show i + 1 + k - i = k + 1 by omega, List.cons_append,
        List.getElem?_cons_succ, List.getElem?_append_left (by rw [length_mask]; exact hklt), hk]
  refine ⟨hmask, fun hopen => ?_, fun hclose => ?_⟩
  · obtain ⟨k, hik, -, hk⟩ := hplace _ hopen
    exact absurd (le_of_getLast?_occurrences hi hk) (Nat.not_le_of_lt hik)
  · obtain ⟨k, hik, hkj, hk⟩ := hplace _ hclose
    exact absurd (le_of_find?_occurrences hj hk hik) (Nat.not_le_of_lt hkj)

/-! ## Literals -/

theorem isWordPart_of_isDigit {c : Char} (h : c.isDigit = true) : isWordPart c = true := by
  rw [isWordPart, isNameChar, Char.isAlphanum, h]
  simp

theorem mem_pointed (n places : Nat) :
    ∀ c ∈ Decimal.pointed n places, c.isDigit = true ∨ c = '.' := by
  have hdigits : ∀ c ∈ Decimal.digits n, c.isDigit = true := fun c hc => isDigit_of_mem_digits hc
  intro c hc
  unfold Decimal.pointed at hc
  simp only at hc
  split at hc
  · exact .inl (hdigits c hc)
  · split at hc
    · rcases List.mem_append.1 hc with hc | hc
      · exact .inl (hdigits c (List.mem_of_mem_take hc))
      · rcases List.mem_cons.1 hc with rfl | hc
        · exact .inr rfl
        · exact .inl (hdigits c (List.mem_of_mem_drop hc))
    · rcases List.mem_cons.1 hc with rfl | hc
      · exact .inl (by decide)
      rcases List.mem_append.1 hc with hc | hc
      · rcases List.mem_cons.1 hc with rfl | hc
        · exact .inr rfl
        · rw [List.eq_of_mem_replicate hc]
          exact .inl (by decide)
      · exact .inl (hdigits c hc)

theorem mem_signed {P : Char → Prop} {negative : Bool} {cs : List Char} (hminus : P '-')
    (h : ∀ c ∈ cs, P c) : ∀ c ∈ Decimal.signed negative cs, P c := by
  cases negative with
  | false => exact h
  | true => exact List.forall_mem_cons.2 ⟨hminus, h⟩

/-- Without its sign, the text of a finite number consists of digits and a point. -/
theorem mem_unsigned (n : Nat) (e : Int) :
    ∀ c ∈ (Decimal.finite false n e).plain, c.isDigit = true ∨ c = '.' := by
  intro c hc
  change c ∈ (if 0 ≤ e then if n = 0 then ['0'] else Decimal.digits n ++
    List.replicate e.toNat '0' else Decimal.pointed n (-e).toNat) at hc
  split at hc
  · split at hc
    · rw [List.mem_singleton.1 hc]
      exact .inl (by decide)
    · rcases List.mem_append.1 hc with hc | hc
      · exact .inl (isDigit_of_mem_digits hc)
      · rw [List.eq_of_mem_replicate hc]
        exact .inl (by decide)
  · exact mem_pointed _ _ c hc

/-- The text of a finite number consists of digits, a point and a minus sign. -/
theorem mem_plain_finite (negative : Bool) (n : Nat) (e : Int) :
    ∀ c ∈ (Decimal.finite negative n e).plain, c.isDigit = true ∨ c = '.' ∨ c = '-' :=
  mem_signed (.inr (.inr rfl)) fun c hc => (mem_unsigned n e c hc).imp_right .inl

theorem mem_undefinedText (signaling : Bool) (payload : Nat) :
    ∀ c ∈ Decimal.undefinedText signaling payload, isWordPart c = true := by
  intro c hc
  rw [Decimal.undefinedText, List.mem_append, List.mem_append] at hc
  rcases hc with (hc | hc) | hc
  · cases signaling with
    | false => cases hc
    | true => exact List.all_eq_true.1 (show ['s'].all isWordPart = true by decide) c hc
  · exact List.all_eq_true.1 (show ['N', 'a', 'N'].all isWordPart = true by decide) c hc
  · split at hc
    · cases hc
    · exact isWordPart_of_isDigit (isDigit_of_mem_digits hc)

/-- **The text of a number is a word, or a minus sign in front of one.** -/
theorem exists_unsigned (n : Decimal) : ∃ negative body,
    n.plain = Decimal.signed negative body ∧ body ≠ [] ∧ ∀ c ∈ body, isWordPart c = true := by
  cases n with
  | finite negative n e =>
    refine ⟨negative, (Decimal.finite false n e).plain, rfl, ?_, fun c hc => ?_⟩
    · intro hnil
      have hread := Decimal.read?_plain false n e
      rw [hnil] at hread
      cases hread
    · rcases mem_unsigned n e c hc with hc | rfl
      · exact isWordPart_of_isDigit hc
      · decide
  | infinite negative =>
    exact ⟨negative, Decimal.infinityText, rfl, List.cons_ne_nil _ _,
      List.all_eq_true.1 (by decide)⟩
  | undefined negative signaling payload =>
    refine ⟨negative, Decimal.undefinedText signaling payload, rfl, ?_,
      mem_undefinedText signaling payload⟩
    cases signaling <;> exact List.cons_ne_nil _ _

/-- Texts of numbers consist of the characters of words and minus signs. -/
theorem mem_plain (n : Decimal) : ∀ c ∈ n.plain, isWordPart c = true ∨ c = '-' := by
  obtain ⟨negative, body, hplain, -, hbody⟩ := exists_unsigned n
  rw [hplain]
  exact mem_signed (.inr rfl) fun c hc => .inl (hbody c hc)

theorem exists_quoted {s : String} {literal : List Char} (h : Literal.quoted? s = some literal) :
    ∃ q, Literal.isQuote q = true ∧ q ∉ s.toList ∧ literal = q :: s.toList ++ [q] := by
  unfold Literal.quoted? at h
  simp only at h
  split at h
  · next hs =>
    cases h
    exact ⟨'\'', by decide, by simpa using hs, rfl⟩
  · split at h
    · next hs =>
      cases h
      exact ⟨'"', by decide, by simpa using hs, rfl⟩
    · cases h

/-- **What literals show**: nothing but what formulas without groups show, and no open quote. -/
theorem shows_literal {v : Value} {literal : List Char} (h : Literal.format v = .ok literal) :
    Shows isFlatChar literal := by
  have hname : ∀ cs : List Char, isIdentifier cs = true → Shows isFlatChar cs :=
    fun cs identifier => (Leaf.name cs identifier).shows fun _ => id
  match v with
  | .null =>
    cases h
    exact hname _ (by decide)
  | .bool true =>
    cases h
    exact hname _ (by decide)
  | .bool false =>
    cases h
    exact hname _ (by decide)
  | .number n =>
    cases h
    refine .of_forall fun c hc => ?_
    rcases mem_plain n c hc with hc | rfl
    · exact ⟨isQuote_of_isWordPart hc, by rw [isFlatChar, hc]; rfl⟩
    · exact ⟨by decide, by decide⟩
  | .text s =>
    rw [Literal.format] at h
    split at h
    · next cs hcs =>
      cases h
      obtain ⟨q, isMark, inside, rfl⟩ := exists_quoted hcs
      exact (Leaf.quoted q s.toList isMark inside).shows fun _ => id
    · cases h
  | .list items => cases h

end BusinessRules.Expression

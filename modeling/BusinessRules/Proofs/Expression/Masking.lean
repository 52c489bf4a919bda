import BusinessRules.Proofs.Expression.Cut

/-!
# Masks of what is cut and pasted

Every text that the evaluator makes is masked from its first character on: the two sides of an
operator, the parts of a logical split, and a text with a literal in the place of a group.  None of
these passes starts inside quotes.  A text is cut only at characters that show, and no quote is open
in front of these or behind them; and the quote marks of a literal, whichever they are, are closed
at its end.  So the mask of the new text is made of the mask that the old one had, also where a
quote mark further on is never closed.

## Main definitions

* `OutsideQuotes`: a character of a text that stands outside quotes
* `Cut`: where the evaluator takes a text apart

## Main statements

* `mask_take`, `mask_drop`: the masks of what stands in front of a place and behind it
* `mask_paste`: the mask of a text with a literal between two places
* `mask_stable`: pasting and cutting keep what shows
-/

namespace BusinessRules.Expression

open Literal (isQuote)

variable {cs : List Char} {i j : Nat}

/-! ## Slices of a mask -/

theorem maskFrom_take (opened : Option Char) (cs : List Char) (i : Nat) :
    maskFrom opened (cs.take i) = (maskFrom opened cs).take i := by
  induction cs generalizing opened i with
  | nil => simp [maskFrom]
  | cons c cs ih =>
    cases i with
    | zero => rfl
    | succ i => rw [List.take_succ_cons, maskFrom, maskFrom, List.take_succ_cons, ih]

/-- What shows in front of a place does not depend on what follows. -/
theorem mask_take (cs : List Char) (i : Nat) : mask (cs.take i) = (mask cs).take i := by
  rw [mask_eq_maskFrom, mask_eq_maskFrom, maskFrom_take]

/-- What shows behind a place does not depend on what is in front of it, if no quote is open. -/
theorem mask_drop (h : quoteAfter none (cs.take i) = none) :
    mask (cs.drop i) = (mask cs).drop i := by
  have hparts : (mask cs).take i ++ (mask cs).drop i = (mask cs).take i ++ mask (cs.drop i) := by
    rw [List.take_append_drop, ← mask_take, ← mask_append h, List.take_append_drop]
  exact (List.append_cancel_left hparts).symm

/-- A text without an open quote in the place of what stands between two places where none is
open. -/
theorem mask_paste {pasted : List Char} (hi : quoteAfter none (cs.take i) = none)
    (hpasted : quoteAfter none pasted = none) (hj : quoteAfter none (cs.take j) = none) :
    mask (cs.take i ++ pasted ++ cs.drop j) =
      (mask cs).take i ++ mask pasted ++ (mask cs).drop j := by
  have hclosed : quoteAfter none (cs.take i ++ pasted) = none := by
    rw [quoteAfter_append, hi, hpasted]
  rw [mask_append hclosed, mask_append hi, mask_take, mask_drop hj]

/-! ## Characters outside quotes -/

/-- A character of a text stands outside quotes at a place. -/
def OutsideQuotes (cs : List Char) (i : Nat) (c : Char) : Prop :=
  cs[i]? = some c ∧ quoteAfter none (cs.take i) = none

/-- Characters that are no quote marks show exactly where they stand outside quotes. -/
theorem outsideQuotes_iff {c : Char} (hquote : isQuote c = false) (hfiller : c ≠ filler) :
    OutsideQuotes cs i c ↔ (mask cs)[i]? = some c := by
  constructor
  · rintro ⟨hc, hclosed⟩
    have hshown := congrArg List.head? (mask_drop hclosed)
    rwa [head?_mask, List.head?_drop, List.head?_drop, hc, eq_comm] at hshown
  · intro hshown
    exact (quoteAfter_take_mask hshown hquote hfiller).symm

/-- Behind such a character no quote is open either. -/
theorem OutsideQuotes.closed_behind {c : Char} (h : OutsideQuotes cs i c)
    (hquote : isQuote c = false) : quoteAfter none (cs.take (i + 1)) = none := by
  rw [List.take_add_one, h.1, quoteAfter_append, h.2]
  simp [quoteAfter, stepQuote, hquote]

/-! ## Cuts -/

/-- A character that shows only outside quotes. -/
def ShowsOutside (c : Char) : Prop := isQuote c = false ∧ c ≠ filler

theorem showsOutside_of_class {p : Char → Bool} {c : Char}
    (hp : ['\'', '"', filler].all (fun d => !p d) = true) (hc : p c = true) : ShowsOutside c := by
  simp only [List.all_cons, List.all_nil, Bool.and_true, Bool.and_eq_true, Bool.not_eq_true'] at hp
  obtain ⟨hsingle, hdouble, hfiller⟩ := hp
  refine ⟨eq_false_of_class mem_of_isQuote ?_ hc, ne_of_class hc hfiller⟩
  simp [hsingle, hdouble]

/-- No quote is open in front of a word of such characters that shows, and none is behind it. -/
theorem closed_around {word : List Char} (hne : word ≠ []) (hword : ∀ c ∈ word, ShowsOutside c)
    (h : word.IsPrefix ((mask cs).drop i)) :
    quoteAfter none (cs.take i) = none ∧ quoteAfter none (cs.take (i + word.length)) = none := by
  have hshown : ∀ {k c}, word[k]? = some c → OutsideQuotes cs (i + k) c := by
    intro k c hc
    have hp := hword c (List.mem_of_getElem? hc)
    rw [outsideQuotes_iff hp.1 hp.2, ← List.getElem?_drop]
    obtain ⟨back, hback⟩ := h
    rw [← hback, List.getElem?_append_left (List.getElem?_eq_some_iff.1 hc).1, hc]
  obtain ⟨c, rest, rfl⟩ := List.exists_cons_of_ne_nil hne
  refine ⟨(hshown (k := 0) rfl).2, ?_⟩
  have hlast := List.getLast?_eq_some_getLast hne
  rw [List.getLast?_eq_getElem?, List.length_cons, Nat.add_sub_cancel] at hlast
  rw [List.length_cons, ← Nat.add_assoc]
  exact (hshown hlast).closed_behind (hword _ (List.getLast_mem hne)).1

/-- Where the evaluator takes a text apart: from the first place to the second one its mask shows an
arithmetic operator, the equals sign of an assignment, a comparison operator or a connective with
the blanks around it. -/
inductive Cut (cs : List Char) : Nat → Nat → Prop where
  | operator {op : Char} {i : Nat} (hop : operators.contains op = true)
      (shows : (mask cs)[i]? = some op) : Cut cs i (i + 1)
  | assignment {i : Nat} (shows : (mask cs)[i]? = some '=') : Cut cs i (i + 1)
  | comparison (op : Comparison) {i : Nat} (shows : op.symbol.toList.IsPrefix ((mask cs).drop i)) :
      Cut cs i (i + op.symbol.length)
  | connective (k : Connective) {i : Nat} {rest : Masked}
      (found : afterConnective? k ((withMask cs).drop i) = some rest) :
      Cut cs i (cs.length - rest.length)

theorem Separator.showsOutside {k : Connective} (s : Separator k) :
    ∀ c ∈ s.text, ShowsOutside c := by
  have hblank : ∀ b : Text.Blanks, ∀ c ∈ b.chars, ShowsOutside c := fun b c hc =>
    showsOutside_of_class (by decide) (b.blank c hc)
  intro c hc
  simp only [Separator.text, List.mem_append] at hc
  rcases hc with hc | hc | hc
  · exact hblank s.before c hc
  · exact showsOutside_of_class (by decide) ((isSymbolChar_of_spelling s.spells).2 c hc)
  · exact hblank s.after c hc

theorem Separator.text_ne_nil {k : Connective} (s : Separator k) : s.text ≠ [] := by
  obtain ⟨c, rest, htext, -⟩ := s.head
  exact htext ▸ List.cons_ne_nil c rest

/-- What a text is cut at is a word that shows, of characters that show only outside quotes. -/
theorem Cut.exists_word (h : Cut cs i j) : ∃ word : List Char, word ≠ [] ∧
    (∀ c ∈ word, ShowsOutside c) ∧ word.IsPrefix ((mask cs).drop i) ∧ j = i + word.length := by
  have hsingle : ∀ {c : Char} {i : Nat}, (mask cs)[i]? = some c →
      [c].IsPrefix ((mask cs).drop i) := by
    intro c i hc
    rw [List.drop_eq_getElem_cons (List.getElem?_eq_some_iff.1 hc).1,
      (List.getElem?_eq_some_iff.1 hc).2]
    exact ⟨_, rfl⟩
  cases h with
  | operator hop shows =>
    exact ⟨[_], List.cons_ne_nil _ _, List.forall_mem_singleton.2
      (showsOutside_of_class (by decide) hop), hsingle shows, rfl⟩
  | assignment shows =>
    exact ⟨['='], List.cons_ne_nil _ _, List.forall_mem_singleton.2 ⟨by decide, by decide⟩,
      hsingle shows, rfl⟩
  | comparison op shows =>
    exact ⟨op.symbol.toList, symbol_ne_nil op, fun c hc =>
      showsOutside_of_class (by decide) (isComparisonChar_of_symbol op c hc),
      shows, by rw [String.length_toList]⟩
  | @connective k _ rest found =>
    obtain ⟨s, Y, heq, hY⟩ := exists_separator found
    refine ⟨s.text, s.text_ne_nil, s.showsOutside, ⟨rest.map Prod.snd, ?_⟩, ?_⟩
    · rw [← map_snd_withMask, ← List.map_drop, heq, List.map_append, hY]
    · have hlength := congrArg List.length heq
      have hpos := List.length_pos_iff.2 s.text_ne_nil
      rw [← hY, List.length_map] at hpos ⊢
      simp only [withMask, List.length_drop, List.length_zip, length_mask, List.length_append,
        Nat.min_self] at hlength
      omega

/-- **A text is cut outside quotes**, on both sides of what it is cut at. -/
theorem Cut.closed (h : Cut cs i j) :
    quoteAfter none (cs.take i) = none ∧ quoteAfter none (cs.take j) = none := by
  obtain ⟨word, hne, hword, shows, rfl⟩ := h.exists_word
  exact closed_around hne hword shows

/-! ## Literals -/

/-- Of the arithmetic operators, a literal shows a minus sign in front at most. -/
theorem operator_of_literal {v : Value} {literal : List Char} (h : Literal.format v = .ok literal)
    {k : Nat} {c : Char} (hc : (mask literal)[k]? = some c) (hop : operators.contains c = true) :
    k = 0 ∧ c = '-' := by
  have hword : ∀ {cs : List Char} {k : Nat}, (∀ d ∈ cs, isWordPart d = true) →
      cs[k]? = some c → False := by
    intro cs k hcs hk
    rw [operators_of_isWordPart (hcs c (List.mem_of_getElem? hk))] at hop
    cases hop
  match v with
  | .null =>
    cases h
    exact (hword (List.all_eq_true.1 (by decide)) hc).elim
  | .bool true =>
    cases h
    exact (hword (List.all_eq_true.1 (by decide)) hc).elim
  | .bool false =>
    cases h
    exact (hword (List.all_eq_true.1 (by decide)) hc).elim
  | .number n =>
    cases h
    obtain ⟨negative, body, hplain, -, hbody⟩ := exists_unsigned n
    rw [(mask_of_no_quote fun d hd => (inert_plain n d hd).1).1, hplain] at hc
    cases negative with
    | false => exact (hword hbody hc).elim
    | true =>
      cases k with
      | zero => exact ⟨rfl, (Option.some.inj hc).symm⟩
      | succ k => exact (hword hbody hc).elim
  | .text s =>
    rw [Literal.format] at h
    split at h
    · next cs hcs =>
      cases h
      obtain ⟨q, isMark, inside, rfl⟩ := exists_quoted hcs
      rw [mask_quoted isMark inside] at hc
      have hmem : c = q ∨ c = filler := by
        have := List.mem_of_getElem? hc
        simp only [List.mem_cons, List.mem_append, List.mem_replicate, List.not_mem_nil,
          or_false] at this
        tauto
      rcases hmem with rfl | rfl
      · rw [operators_of_isQuote isMark] at hop
        cases hop
      · cases hop
    · cases h
  | .list items => cases h

/-- **Pasting and cutting keep what shows.**  A literal in the place of what stands from an opening
to a closing parenthesis leaves the mask in front and behind as it is, and shows neither a
parenthesis nor a character of a comparison, and no operator but a minus sign in front.  Where a
text is cut, the masks of the two sides are the two sides of its mask. -/
theorem mask_stable {v : Value} {literal : List Char} (h : Literal.format v = .ok literal)
    (cs : List Char) :
    (∀ i j, i < j → OutsideQuotes cs i '(' → OutsideQuotes cs j ')' →
      mask (cs.take i ++ literal ++ cs.drop (j + 1)) =
        (mask cs).take i ++ mask literal ++ (mask cs).drop (j + 1)) ∧
    (∀ c ∈ mask literal, c ∉ ['(', ')', '=', '<', '>', '!']) ∧
    (∀ k c, (mask literal)[k]? = some c → operators.contains c = true → k = 0 ∧ c = '-') ∧
    ∀ i j, Cut cs i j →
      mask (cs.take i) = (mask cs).take i ∧ mask (cs.drop j) = (mask cs).drop j := by
  have hliteral := shows_literal h
  refine ⟨fun i j _ hi hj => ?_, fun c hc => ?_, fun k c => operator_of_literal h,
    fun i j hcut => ⟨mask_take cs i, mask_drop hcut.closed.2⟩⟩
  · exact mask_paste hi.2 hliteral.closed (hj.closed_behind (by decide))
  · have hlisted : ['(', ')', '=', '<', '>', '!'].contains c = false :=
      eq_false_of_class (fun d => List.contains_iff_mem.1) (by decide) (hliteral.all c hc)
    simpa using hlisted

/-- The pasted text has the other quote mark and a parenthesis inside its own, and a quote mark that
is never closed follows. -/
theorem mask_stable_quoted :
    Literal.format (.text "it's (") = .ok "\"it's (\"".toList ∧
      OutsideQuotes "('b' + c) > 'd".toList 0 '(' ∧ OutsideQuotes "('b' + c) > 'd".toList 8 ')' ∧
      mask ("\"it's (\" > 'd".toList) = mask "\"it's (\"".toList ++ " > '".toList ++ [filler] := by
  have hformat : Literal.format (.text "it's (") = .ok "\"it's (\"".toList := by decide
  have hopen : OutsideQuotes "('b' + c) > 'd".toList 0 '(' := ⟨by decide, by decide⟩
  have hclose : OutsideQuotes "('b' + c) > 'd".toList 8 ')' := ⟨by decide, by decide⟩
  exact ⟨hformat, hopen, hclose,
    (mask_stable hformat "('b' + c) > 'd".toList).1 0 8 (by decide) hopen hclose⟩

end BusinessRules.Expression

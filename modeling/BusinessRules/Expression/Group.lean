import BusinessRules.Expression.Operator

/-!
# Parenthesised groups

Groups are evaluated innermost first: the last group that opens outside quotes is replaced by the
literal of its value, and the text that results is evaluated in its place.  A literal shows no
parenthesis and leaves no quote open, so each replacement leaves one opening parenthesis less.

## Main definitions

* `openings`: the number of opening parentheses outside quotes
* `lastGroup?`: the last group that opens, as the texts in front of it, inside it and after it

## Main statements

* `openings_splice`: replacing a group by a literal takes one opening parenthesis away
-/

namespace BusinessRules.Expression

/-- The number of opening parentheses outside quotes. -/
def openings (cs : List Char) : Nat := (mask cs).count '('

/-- Whether an opening parenthesis stands outside quotes. -/
def hasGroup (cs : List Char) : Bool := (mask cs).contains '('

/-- The last group that opens outside quotes, as the texts in front of it, inside it and after
it; `none` if it is not closed. -/
def lastGroup? (cs : List Char) : Option (List Char × List Char × List Char) :=
  let masked := mask cs
  (occurrences '(' masked).getLast?.bind fun i =>
    ((occurrences ')' masked).find? (i < ·)).map fun j =>
      (cs.take i, (cs.take j).drop (i + 1), cs.drop (j + 1))

/-! ## Literals -/

theorem isDigit_of_mem_digits {n : Nat} {c : Char} (h : c ∈ Decimal.digits n) : c.isDigit = true :=
  Nat.isDigit_of_mem_toDigits (by decide) (by decide) h

/-- A text is inert if it shows no quote mark and no parenthesis. -/
def Inert (cs : List Char) : Prop := ∀ c ∈ cs, Literal.isQuote c = false ∧ c ≠ '('

theorem Inert.append {as bs : List Char} (ha : Inert as) (hb : Inert bs) : Inert (as ++ bs) := by
  intro c hc
  rcases List.mem_append.1 hc with h | h
  · exact ha c h
  · exact hb c h

theorem Inert.cons {a : Char} {bs : List Char} (ha : Literal.isQuote a = false ∧ a ≠ '(')
    (hb : Inert bs) : Inert (a :: bs) := by
  intro c hc
  rcases List.mem_cons.1 hc with h | h
  · exact h ▸ ha
  · exact hb c h

theorem inert_of_all {cs : List Char}
    (h : cs.all (fun c => !Literal.isQuote c && c != '(') = true) : Inert cs := by
  simpa [Inert] using h

theorem inert_of_isDigit {c : Char} (h : c.isDigit = true) :
    Literal.isQuote c = false ∧ c ≠ '(' := by
  constructor
  · rcases hq : Literal.isQuote c with _ | _
    · rfl
    · simp only [Literal.isQuote, Bool.or_eq_true, decide_eq_true_eq] at hq
      rcases hq with rfl | rfl <;> revert h <;> decide
  · rintro rfl
    revert h
    decide

theorem inert_digits (n : Nat) : Inert (Decimal.digits n) :=
  fun _ h => inert_of_isDigit (isDigit_of_mem_digits h)

theorem inert_replicate_zero (n : Nat) : Inert (List.replicate n '0') := by
  intro c hc
  rw [List.eq_of_mem_replicate hc]
  decide

theorem inert_signed {negative : Bool} {cs : List Char} (h : Inert cs) :
    Inert (Decimal.signed negative cs) := by
  cases negative
  · exact h
  · exact Inert.cons (by decide) h

theorem inert_take {cs : List Char} (h : Inert cs) (n : Nat) : Inert (cs.take n) :=
  fun c hc => h c (List.mem_of_mem_take hc)

theorem inert_drop {cs : List Char} (h : Inert cs) (n : Nat) : Inert (cs.drop n) :=
  fun c hc => h c (List.mem_of_mem_drop hc)

theorem inert_pointed (c places : Nat) : Inert (Decimal.pointed c places) := by
  unfold Decimal.pointed
  simp only
  split
  · exact inert_digits c
  · split
    · exact (inert_take (inert_digits c) _).append
        (Inert.cons (by decide) (inert_drop (inert_digits c) _))
    · exact Inert.cons (by decide) (Inert.cons (by decide)
        ((inert_replicate_zero _).append (inert_digits c)))

/-- The plain text of a number shows no quote mark and no parenthesis. -/
theorem inert_plain (n : Decimal) : Inert n.plain := by
  cases n with
  | finite negative c e =>
    refine inert_signed ?_
    split
    · split
      · exact Inert.cons (by decide) (by intro c hc; cases hc)
      · exact (inert_digits c).append (inert_replicate_zero _)
    · exact inert_pointed c _
  | infinite negative => exact inert_signed (inert_of_all (by decide))
  | undefined negative signaling payload =>
    refine inert_signed (Inert.append (Inert.append ?_ ?_) ?_)
    · cases signaling <;> simp [Inert, Literal.isQuote]
    · exact inert_of_all (by decide)
    · split
      · intro c hc; cases hc
      · exact inert_digits payload

theorem mask_of_inert {cs : List Char} (h : Inert cs) :
    (mask cs).count '(' = 0 ∧ quoteAfter none cs = none := by
  obtain ⟨h₁, h₂⟩ := mask_of_no_quote fun c hc => (h c hc).1
  refine ⟨?_, h₂⟩
  rw [h₁, List.count_eq_zero]
  exact fun hc => (h _ hc).2 rfl

theorem maskFrom_enclosed {q : Char} {cs : List Char} (h : q ∉ cs) :
    maskFrom (some q) (cs ++ [q]) = List.replicate cs.length filler ++ [q] ∧
      quoteAfter (some q) (cs ++ [q]) = none := by
  induction cs with
  | nil => simp [maskFrom, maskChar, quoteAfter, stepQuote]
  | cons c cs ih =>
    have hc : c ≠ q := fun hc => h (by simp [hc])
    have := ih fun hq => h (List.mem_cons_of_mem c hq)
    simpa [maskFrom, maskChar, stepQuote, quoteAfter, hc, List.replicate_succ] using this

/-- A text between quote marks that it does not hold shows nothing but those marks. -/
theorem mask_enclosed {q : Char} (hq : Literal.isQuote q = true) {cs : List Char} (h : q ∉ cs) :
    (mask (q :: cs ++ [q])).count '(' = 0 ∧ quoteAfter none (q :: cs ++ [q]) = none := by
  have hs : stepQuote none q = some q := by simp [stepQuote, hq]
  obtain ⟨h₁, h₂⟩ := maskFrom_enclosed h
  constructor
  · rw [mask_eq_maskFrom, List.cons_append, maskFrom, hs, h₁]
    have hp : q ≠ '(' := by rintro rfl; revert hq; decide
    simp [maskChar, hp, List.count_replicate, filler]
  · rw [List.cons_append]
    change quoteAfter (stepQuote none q) (cs ++ [q]) = none
    rw [hs, h₂]

/-- A literal shows no parenthesis and leaves no quote open. -/
theorem mask_literal {v : Value} {cs : List Char} (h : Literal.format v = .ok cs) :
    (mask cs).count '(' = 0 ∧ quoteAfter none cs = none := by
  match v with
  | .null => cases h; decide
  | .bool true => cases h; decide
  | .bool false => cases h; decide
  | .number n => cases h; exact mask_of_inert (inert_plain n)
  | .list _ => cases h
  | .text s =>
    simp only [Literal.format, Literal.quoted?] at h
    split at h
    · next ds hd =>
      cases h
      split at hd
      · next hs =>
        cases hd
        exact mask_enclosed (by decide) (by simpa using hs)
      · split at hd
        · next hs =>
          cases hd
          exact mask_enclosed (by decide) (by simpa using hs)
        · cases hd
    · cases h

/-! ## Splicing -/

theorem openings_append {as : List Char} (h : quoteAfter none as = none) (bs : List Char) :
    openings (as ++ bs) = openings as + openings bs := by
  simp [openings, mask_append h]

theorem openings_append_le (as bs : List Char) : openings as ≤ openings (as ++ bs) := by
  simp only [openings, mask_eq_maskFrom, maskFrom_append, List.count_append]
  omega

theorem stepQuote_of_isBlank {c : Char} (h : Text.isBlank c = true) (opened : Option Char)
    (ho : opened = none) : stepQuote opened c = none := by
  subst ho
  have : Literal.isQuote c = false := by
    rcases hq : Literal.isQuote c with _ | _
    · rfl
    · simp only [Literal.isQuote, Bool.or_eq_true, decide_eq_true_eq] at hq
      rcases hq with rfl | rfl <;> revert h <;> decide
  simp [stepQuote, this]

theorem openings_trimStart (cs : List Char) : openings (Text.trimStart cs) ≤ openings cs := by
  induction cs with
  | nil => exact Nat.le_refl _
  | cons c cs ih =>
    simp only [Text.trimStart, List.dropWhile_cons]
    split
    · next hb =>
      have hs : quoteAfter none [c] = none := stepQuote_of_isBlank hb none rfl
      have := openings_append hs cs
      simp only [List.cons_append, List.nil_append] at this
      simp only [Text.trimStart] at ih
      omega
    · exact Nat.le_refl _

theorem openings_trimEnd (cs : List Char) : openings (Text.trimEnd cs) ≤ openings cs := by
  obtain ⟨front, h⟩ := List.dropWhile_suffix Text.isBlank (l := cs.reverse)
  have : Text.trimEnd cs ++ front.reverse = cs := by
    rw [Text.trimEnd, ← List.reverse_append, h, List.reverse_reverse]
  calc openings (Text.trimEnd cs) ≤ openings (Text.trimEnd cs ++ front.reverse) :=
        openings_append_le ..
    _ = openings cs := by rw [this]

/-- Trimming opens no group. -/
theorem openings_trim (cs : List Char) : openings (Text.trim cs) ≤ openings cs :=
  Nat.le_trans (openings_trimEnd _) (openings_trimStart cs)

theorem eq_append_of_getElem? {cs : List Char} {i : Nat} {c : Char} (h : cs[i]? = some c) :
    cs = cs.take i ++ c :: cs.drop (i + 1) := by
  obtain ⟨hi, hc⟩ := List.getElem?_eq_some_iff.1 h
  conv => lhs; rw [← List.take_append_drop i cs, List.drop_eq_getElem_cons hi, hc]

/-- A group is an opening parenthesis, its inside and a closing parenthesis, all outside quotes. -/
theorem lastGroup?_eq_some {cs before inside after : List Char}
    (h : lastGroup? cs = some (before, inside, after)) :
    cs = before ++ '(' :: inside ++ ')' :: after ∧ quoteAfter none before = none ∧
      quoteAfter none (before ++ '(' :: inside) = none := by
  simp only [lastGroup?, Option.bind_eq_some_iff, Option.map_eq_some_iff, Prod.mk.injEq] at h
  obtain ⟨i, hi, j, hj, rfl, rfl, rfl⟩ := h
  have hi' := mem_occurrences.1 (List.mem_of_getLast? hi)
  have hj' := mem_occurrences.1 (List.mem_of_find?_eq_some hj)
  have hij : i < j := by simpa using List.find?_some hj
  obtain ⟨qi, ci⟩ := quoteAfter_take_mask hi' (by decide) (by decide)
  obtain ⟨qj, cj⟩ := quoteAfter_take_mask hj' (by decide) (by decide)
  have hsplit : cs.take j = cs.take i ++ '(' :: (cs.take j).drop (i + 1) := by
    have : (cs.take j)[i]? = some '(' := by rw [List.getElem?_take_of_lt hij, ci]
    have := eq_append_of_getElem? this
    rwa [List.take_take, Nat.min_eq_left (Nat.le_of_lt hij)] at this
  refine ⟨?_, qi, hsplit ▸ qj⟩
  rw [← hsplit]
  exact eq_append_of_getElem? cj

/-- Replacing a group by a literal takes one opening parenthesis away. -/
theorem openings_splice {cs before inside after literal : List Char} {v : Value}
    (h : lastGroup? cs = some (before, inside, after)) (hv : Literal.format v = .ok literal) :
    openings (before ++ literal ++ after) < openings cs := by
  obtain ⟨hcs, hb, hi⟩ := lastGroup?_eq_some h
  obtain ⟨hl, hq⟩ := mask_literal hv
  have hbl : quoteAfter none (before ++ literal) = none := by rw [quoteAfter_append, hb, hq]
  have hclose : quoteAfter none (before ++ '(' :: inside ++ [')']) = none := by
    rw [quoteAfter_append, hi]; decide
  have hopen : openings before + 1 ≤ openings (before ++ '(' :: inside) := by
    rw [openings_append hb]
    have : openings ('(' :: inside) = 1 + openings inside := by
      have h₁ : openings ['('] = 1 := by decide
      have h₂ : quoteAfter none ['('] = none := by decide
      exact h₁ ▸ openings_append h₂ inside
    omega
  have hafter : openings cs = openings (before ++ '(' :: inside ++ [')']) + openings after := by
    rw [← openings_append hclose, hcs]
    simp
  have hmid := openings_append_le (before ++ '(' :: inside) [')']
  have hl' : openings literal = 0 := hl
  rw [openings_append hbl, openings_append hb, hl', hafter]
  omega

end BusinessRules.Expression

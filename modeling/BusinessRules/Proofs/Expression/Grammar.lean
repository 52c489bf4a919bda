import BusinessRules.Expression.Arithmetic
import BusinessRules.Proofs.Decimal.Written
import BusinessRules.Proofs.Expression.Sequence

/-!
# The grammar of arithmetic texts

An operand is a numeral, a quoted text, a name, a sign in front of an operand, or a formula in
parentheses; a formula is a sequence of operands.  The trees of this grammar carry the blanks
between their words, so that every grammatical text is the text of a tree.

## Main definitions

* `Leaf`, `Operand`, `Formula`: the trees
* `Operand.text`, `Formula.text`: the texts that they stand for
* `Operand.IsFlat`: an operand without groups
* `Shows`: a text that leaves no quote open and shows characters of one class only

## Main statements

* `exists_numeral_parts`: a numeral is a sign, a mantissa and a power of ten
* `Operand.tight`, `Formula.tight`: grammatical texts begin and end without blanks
* `Operand.shows`, `Formula.shows`: what grammatical texts show outside quotes
-/

namespace BusinessRules.Expression

open Text (Blanks Tight)

/-! ## Trees -/

/-- An operand that is a single word. -/
inductive Leaf where
  | number (chars : List Char) (reads : (Numeral.read? chars).isSome = true)
  | quoted (mark : Char) (chars : List Char) (isMark : Literal.isQuote mark = true)
      (inside : mark ∉ chars)
  | name (chars : List Char) (identifier : isIdentifier chars = true)

/-- The text of a word. -/
def Leaf.text : Leaf → List Char
  | number chars _ => chars
  | quoted mark chars _ _ => mark :: chars ++ [mark]
  | name chars _ => chars

/-- What stands on one side of an operation. -/
inductive Operand where
  | leaf (word : Leaf)
  | signed (negative : Bool) (gap : Blanks) (operand : Operand)
  | group (front : Blanks) (inside : Sequence Operand) (back : Blanks)

/-- A sequence of operands. -/
abbrev Formula := Sequence Operand

/-- How a sign is written. -/
def signSymbol (negative : Bool) : Char := if negative then '-' else '+'

mutual

/-- The text of an operand. -/
def Operand.text : Operand → List Char
  | .leaf word => word.text
  | .signed negative gap operand => signSymbol negative :: gap.chars ++ operand.text
  | .group front inside back => '(' :: front.chars ++ Formula.text inside ++ back.chars ++ [')']

/-- The text of a formula. -/
def Formula.text : Sequence Operand → List Char
  | .single operand => operand.text
  | .link operand before op after rest =>
    operand.text ++ (before.chars ++ op.symbol :: after.chars) ++ Formula.text rest

end

/-- An operand without groups. -/
def Operand.IsFlat : Operand → Prop
  | .leaf _ => True
  | .signed _ _ operand => operand.IsFlat
  | .group _ _ _ => False

/-- A formula without groups. -/
def Formula.IsFlat (s : Formula) : Prop := ∀ o ∈ s.operands, o.IsFlat

theorem Formula.isFlat_single {o : Operand} (ho : o.IsFlat) : Formula.IsFlat (.single o) :=
  fun _ hmem => List.mem_singleton.1 hmem ▸ ho

/-- The text of two formulas with an operation between them. -/
theorem Formula.text_join (s : Formula) (before : Blanks) (op : Operation) (after : Blanks)
    (t : Formula) : Formula.text (s.join before op after t) =
      Formula.text s ++ (before.chars ++ op.symbol :: after.chars) ++ Formula.text t := by
  induction s with
  | single a => rfl
  | link a b o c rest ih => simp [Sequence.join, Formula.text, ih]

/-! ## Numerals in parts -/

/-- A sign, or none. -/
def IsSign (cs : List Char) : Prop := cs = [] ∨ cs = ['+'] ∨ cs = ['-']

/-- A power of ten, or none. -/
def IsPower (cs : List Char) : Prop :=
  cs = [] ∨ ∃ mark sign digits, cs = mark :: sign ++ digits ∧ (mark = 'e' ∨ mark = 'E') ∧
    IsSign sign ∧ digits ≠ [] ∧ ∀ c ∈ digits, Text.isDigit c = true

theorem exists_sign (cs : List Char) :
    ∃ sign, IsSign sign ∧ cs = sign ++ (Numeral.takeSign cs).2 := by
  unfold Numeral.takeSign
  split
  · exact ⟨['+'], .inr (.inl rfl), rfl⟩
  · exact ⟨['-'], .inr (.inr rfl), rfl⟩
  · exact ⟨[], .inl rfl, rfl⟩

theorem isPower_of_takePower? {cs : List Char} (h : (Numeral.takePower? cs).isSome = true) :
    IsPower cs := by
  unfold Numeral.takePower? at h
  split at h
  · exact .inl rfl
  · next c cs =>
    split at h
    · next hmark =>
      obtain ⟨sign, hsign, hcs⟩ := exists_sign cs
      simp only at h
      split at h
      · cases h
      · next hdigits =>
        simp only [Bool.or_eq_true, Bool.not_eq_true', not_or, List.isEmpty_iff,
          Bool.not_eq_false, List.all_eq_true] at hdigits
        refine .inr ⟨c, sign, (Numeral.takeSign cs).2, ?_, by simpa using hmark, hsign,
          hdigits⟩
        rw [List.cons_append, ← hcs]
    · cases h

theorem count_point {ds : List Char} (h : ∀ c ∈ ds, Text.isDigit c = true) : ds.count '.' = 0 := by
  refine List.count_eq_zero.2 fun hmem => ?_
  have := h _ hmem
  revert this
  decide

/-- Digits with a point among them are a mantissa. -/
theorem isMantissa_of_digits {ws fs : List Char} (hw : ∀ c ∈ ws, Text.isDigit c = true)
    (hf : ∀ c ∈ fs, Text.isDigit c = true) (hne : ws ≠ [] ∨ fs ≠ []) :
    isMantissa (ws ++ '.' :: fs) = true := by
  have hall : ∀ c ∈ ws ++ '.' :: fs, isMantissaChar c = true := by
    intro c hc
    simp only [List.mem_append, List.mem_cons] at hc
    rcases hc with hc | rfl | hc
    · simp [isMantissaChar, hw c hc]
    · decide
    · simp [isMantissaChar, hf c hc]
  have hany : (ws ++ '.' :: fs).any Text.isDigit = true := by
    rw [List.any_eq_true]
    rcases hne with hne | hne
    · obtain ⟨c, rest, rfl⟩ := List.exists_cons_of_ne_nil hne
      exact ⟨c, by simp, hw c (by simp)⟩
    · obtain ⟨c, rest, rfl⟩ := List.exists_cons_of_ne_nil hne
      exact ⟨c, by simp, hf c (by simp)⟩
  rw [isMantissa, List.all_eq_true.2 hall, hany, List.count_append, List.count_cons_self,
    count_point hw, count_point hf]
  rfl

theorem isMantissa_of_whole {ws : List Char} (hw : ∀ c ∈ ws, Text.isDigit c = true)
    (hne : ws ≠ []) : isMantissa ws = true := by
  have hall : ∀ c ∈ ws, isMantissaChar c = true := by
    intro c hc
    simp [isMantissaChar, hw c hc]
  have hany : ws.any Text.isDigit = true := by
    obtain ⟨c, rest, rfl⟩ := List.exists_cons_of_ne_nil hne
    exact List.any_eq_true.2 ⟨c, by simp, hw c (by simp)⟩
  rw [isMantissa, List.all_eq_true.2 hall, hany, count_point hw]
  rfl

theorem exists_mantissa {cs ws fs rest : List Char}
    (h : Numeral.takeMantissa? cs = some (ws, fs, rest)) :
    ∃ mantissa, cs = mantissa ++ rest ∧ isMantissa mantissa = true := by
  have hdigits : ∀ ds : List Char, ∀ c ∈ ds.takeWhile Text.isDigit, Text.isDigit c = true :=
    fun ds c hc => List.mem_takeWhile_imp hc
  have hcs := (List.takeWhile_append_dropWhile (p := Text.isDigit) (l := cs)).symm
  unfold Numeral.takeMantissa? at h
  simp only at h
  split at h
  · next after hdrop =>
    split at h
    · cases h
    · next hne =>
      cases h
      have hafter := (List.takeWhile_append_dropWhile (p := Text.isDigit) (l := after)).symm
      refine ⟨cs.takeWhile Text.isDigit ++ '.' :: after.takeWhile Text.isDigit, ?_,
        isMantissa_of_digits (hdigits _) (hdigits _) ?_⟩
      · rw [List.append_assoc, List.cons_append, ← hafter, ← hdrop, ← hcs]
      · rw [Bool.and_eq_true, List.isEmpty_iff, List.isEmpty_iff] at hne
        exact Decidable.not_and_iff_not_or_not.1 hne
  · split at h
    · cases h
    · next hne =>
      cases h
      rw [List.isEmpty_iff] at hne
      exact ⟨cs.takeWhile Text.isDigit, hcs, isMantissa_of_whole (hdigits _) hne⟩

/-- **A numeral is a sign, a mantissa and a power of ten.** -/
theorem exists_numeral_parts {cs : List Char} (h : (Numeral.read? cs).isSome = true) :
    ∃ sign mantissa power, cs = sign ++ (mantissa ++ power) ∧ IsSign sign ∧
      isMantissa mantissa = true ∧ IsPower power := by
  obtain ⟨sign, hsign, hcs⟩ := exists_sign cs
  unfold Numeral.read? at h
  simp only at h
  rcases hm : Numeral.takeMantissa? (Numeral.takeSign cs).2 with _ | ⟨ws, fs, rest⟩
  · simp [hm] at h
  · rw [hm, Option.bind_some, Option.isSome_map] at h
    obtain ⟨mantissa, hbody, hmantissa⟩ := exists_mantissa hm
    exact ⟨sign, mantissa, rest, by rw [← hbody, ← hcs], hsign, hmantissa,
      isPower_of_takePower? h⟩

/-! ## Classes of characters -/

/-- A character of a class is none outside of it. -/
theorem ne_of_class {p : Char → Bool} {c d : Char} (hc : p c = true) (hd : p d = false) :
    c ≠ d := by
  rintro rfl
  rw [hc] at hd
  cases hd

/-- Two classes have nothing in common if all characters of the one are listed and none of these
belongs to the other. -/
theorem eq_false_of_class {p q : Char → Bool} {cs : List Char} (hq : ∀ c, q c = true → c ∈ cs)
    (hp : (cs.all fun d => !p d) = true) {c : Char} (h : p c = true) : q c = false := by
  by_contra hc
  have := List.all_eq_true.1 hp c (hq c (by simpa using hc))
  rw [h] at this
  cases this

theorem mem_of_isQuote (c : Char) (h : Literal.isQuote c = true) : c ∈ ['\'', '"'] := by
  simpa [Literal.isQuote] using h

theorem mem_of_contains_operators (c : Char) (h : operators.contains c = true) : c ∈ operators :=
  List.contains_iff_mem.1 h

/-- A digit belongs to the run of ten that begins with some zero. -/
theorem exists_zero_of_isDigit {c : Char} (h : Text.isDigit c = true) :
    ∃ z ∈ Text.digitZeros, z ≤ c.toNat ∧ c.toNat < z + 10 := by
  rw [Text.isDigit, Text.digitValue?, Option.isSome_map] at h
  obtain ⟨z, hz⟩ := Option.isSome_iff_exists.1 h
  have hrange := List.find?_some hz
  rw [Bool.and_eq_true, decide_eq_true_eq, decide_eq_true_eq] at hrange
  exact ⟨z, List.mem_of_find?_eq_some hz, hrange⟩

theorem isBlank_of_isDigit {c : Char} (h : Text.isDigit c = true) : Text.isBlank c = false := by
  have hapart : ∀ z ∈ Text.digitZeros, ∀ r ∈ Text.blankRanges, z + 9 < r.1 ∨ r.2 < z := by decide
  obtain ⟨z, hz, hrange⟩ := exists_zero_of_isDigit h
  rw [Text.isBlank, List.any_eq_false]
  intro r hr
  have := hapart z hz r hr
  rw [Bool.and_eq_true, decide_eq_true_eq, decide_eq_true_eq]
  omega

/-- Characters of names lie between the ASCII digits and letters. -/
theorem isNameChar_bounds {c : Char} (h : isNameChar c = true) : 48 ≤ c.toNat ∧ c.toNat ≤ 122 := by
  simp only [isNameChar, Bool.or_eq_true, decide_eq_true_eq, Char.isAlphanum, Char.isAlpha,
    Char.isUpper, Char.isLower, Char.isDigit, Bool.and_eq_true, UInt32.le_iff_toNat_le] at h
  rcases h with ((⟨h₁, h₂⟩ | ⟨h₁, h₂⟩) | ⟨h₁, h₂⟩) | rfl
  · exact ⟨Nat.le_trans (by decide) h₁, Nat.le_trans h₂ (by decide)⟩
  · exact ⟨Nat.le_trans (by decide) h₁, Nat.le_trans h₂ (by decide)⟩
  · exact ⟨Nat.le_trans (by decide) h₁, Nat.le_trans h₂ (by decide)⟩
  · decide

theorem isBlank_of_isNameChar {c : Char} (h : isNameChar c = true) : Text.isBlank c = false := by
  have hapart : ∀ r ∈ Text.blankRanges, r.2 < 48 ∨ 122 < r.1 := by decide
  have hbounds := isNameChar_bounds h
  rw [Text.isBlank, List.any_eq_false]
  intro r hr
  have := hapart r hr
  rw [Bool.and_eq_true, decide_eq_true_eq, decide_eq_true_eq]
  omega

/-- The characters of names and of numerals without their signs. -/
def isWordPart (c : Char) : Bool := isNameChar c || isMantissaChar c

/-- The characters that formulas without groups show outside quotes. -/
def isFlatChar (c : Char) : Bool :=
  isWordPart c || operators.contains c || Literal.isQuote c || c = filler || Text.isBlank c

theorem isBlank_of_isWordPart {c : Char} (h : isWordPart c = true) : Text.isBlank c = false := by
  simp only [isWordPart, isMantissaChar, Bool.or_eq_true, decide_eq_true_eq] at h
  rcases h with h | h | rfl
  · exact isBlank_of_isNameChar h
  · exact isBlank_of_isDigit h
  · decide

theorem isQuote_of_isWordPart {c : Char} (h : isWordPart c = true) :
    Literal.isQuote c = false :=
  eq_false_of_class mem_of_isQuote (by decide) h

theorem mem_operators {c : Char} (h : operators.contains c = true) :
    c = '+' ∨ c = '-' ∨ c = '*' ∨ c = '/' := by
  simpa [operators] using h

theorem isBlank_of_operator {c : Char} (h : operators.contains c = true) :
    Text.isBlank c = false := by
  rcases mem_operators h with rfl | rfl | rfl | rfl <;> decide

theorem isQuote_of_operator {c : Char} (h : operators.contains c = true) :
    Literal.isQuote c = false := by
  rcases mem_operators h with rfl | rfl | rfl | rfl <;> decide

theorem operators_of_isQuote {c : Char} (h : Literal.isQuote c = true) :
    operators.contains c = false :=
  eq_false_of_class mem_of_contains_operators (by decide) h

theorem operators_of_isWordPart {c : Char} (h : isWordPart c = true) :
    operators.contains c = false :=
  eq_false_of_class mem_of_contains_operators (by decide) h

theorem operators_of_isBlank {c : Char} (h : Text.isBlank c = true) :
    operators.contains c = false :=
  eq_false_of_class mem_of_contains_operators (by decide) h

theorem isFlatChar_of_operator {c : Char} (h : operators.contains c = true) :
    isFlatChar c = true := by
  rw [isFlatChar, h, Bool.or_true, Bool.true_or, Bool.true_or, Bool.true_or]

theorem operators_symbol (op : Operation) : operators.contains op.symbol = true := by
  cases op <;> decide

theorem operators_signSymbol (negative : Bool) :
    operators.contains (signSymbol negative) = true := by
  cases negative <;> decide

theorem isBlank_of_isQuote {c : Char} (h : Literal.isQuote c = true) : Text.isBlank c = false := by
  simp only [Literal.isQuote, Bool.or_eq_true, decide_eq_true_eq] at h
  rcases h with rfl | rfl <;> decide

theorem isNameChar_of_isIdentifier {cs : List Char} (h : isIdentifier cs = true) :
    ∀ c ∈ cs, isNameChar c = true := by
  cases cs with
  | nil => simp
  | cons d ds =>
    simp only [isIdentifier, Bool.and_eq_true, List.all_eq_true] at h
    intro c hc
    rcases List.mem_cons.1 hc with rfl | hc
    · have := h.1
      simp only [isNameStart, isNameChar, Char.isAlphanum, Bool.or_eq_true] at this ⊢
      exact this.imp_left .inl
    · exact h.2 c hc

/-- The characters of a numeral are those of its mantissa, its mark and its signs. -/
theorem mem_numeral_parts {cs : List Char} (h : (Numeral.read? cs).isSome = true) :
    ∀ c ∈ cs, isMantissaChar c = true ∨ (c = 'e' ∨ c = 'E') ∨ operators.contains c = true := by
  have hsignChar : ∀ sign, IsSign sign → ∀ c ∈ sign, operators.contains c = true := by
    rintro sign (rfl | rfl | rfl) c hc
    · cases hc
    · rw [List.mem_singleton.1 hc]
      decide
    · rw [List.mem_singleton.1 hc]
      decide
  obtain ⟨sign, mantissa, power, rfl, hsign, hmantissa, hpower⟩ := exists_numeral_parts h
  intro c hc
  rcases List.mem_append.1 hc with hc | hc
  · exact .inr (.inr (hsignChar sign hsign c hc))
  rcases List.mem_append.1 hc with hc | hc
  · rw [isMantissa, Bool.and_eq_true, Bool.and_eq_true, List.all_eq_true] at hmantissa
    exact .inl (hmantissa.1.1 c hc)
  · rcases hpower with rfl | ⟨mark, sign, digits, rfl, hmark, hsign, -, hdigits⟩
    · cases hc
    · simp only [List.cons_append, List.mem_cons, List.mem_append] at hc
      rcases hc with rfl | hc | hc
      · exact .inr (.inl hmark)
      · exact .inr (.inr (hsignChar sign hsign c hc))
      · exact .inl (by rw [isMantissaChar, hdigits c hc, Bool.true_or])

/-- The characters of a numeral are those of words and signs. -/
theorem mem_numeral {cs : List Char} (h : (Numeral.read? cs).isSome = true) :
    ∀ c ∈ cs, isWordPart c = true ∨ operators.contains c = true := by
  intro c hc
  rcases mem_numeral_parts h c hc with hc | (rfl | rfl) | hc
  · exact .inl (by rw [isWordPart, hc, Bool.or_true])
  · exact .inl (by decide)
  · exact .inl (by decide)
  · exact .inr hc

/-! ## Tight texts -/

theorem Leaf.tight (l : Leaf) : Tight l.text := by
  cases l with
  | number cs reads =>
    refine .of_forall ?_ fun c hc => ?_
    · rintro rfl
      exact Bool.noConfusion reads
    · rcases mem_numeral reads c hc with h | h
      · exact isBlank_of_isWordPart h
      · exact isBlank_of_operator h
  | quoted q cs isMark inside =>
    have hq := isBlank_of_isQuote isMark
    exact ⟨⟨q, cs ++ [q], rfl, hq⟩, ⟨q :: cs, q, rfl, hq⟩⟩
  | name cs identifier =>
    refine .of_forall ?_ fun c hc => isBlank_of_isNameChar ?_
    · rintro rfl
      exact Bool.noConfusion identifier
    · exact isNameChar_of_isIdentifier identifier c hc

/-- Operands begin and end without blanks. -/
theorem Operand.tight : (o : Operand) → Tight o.text
  | .leaf l => l.tight
  | .signed negative gap o =>
    o.tight.cons (isBlank_of_operator (operators_signSymbol negative)) gap.chars
  | .group front inside back =>
    ⟨⟨'(', front.chars ++ Formula.text inside ++ back.chars ++ [')'], by simp [Operand.text],
      by decide⟩,
      ⟨'(' :: front.chars ++ Formula.text inside ++ back.chars, ')', rfl, by decide⟩⟩

/-- Formulas begin and end without blanks. -/
theorem Formula.tight (s : Formula) : Tight (Formula.text s) := by
  induction s with
  | single o => exact o.tight
  | link o before op after rest ih => exact o.tight.append ih _

/-! ## What shows outside quotes -/

/-- A text that leaves no quote open and shows characters of one class only. -/
structure Shows (shown : Char → Bool) (cs : List Char) : Prop where
  closed : quoteAfter none cs = none
  all : ∀ c ∈ mask cs, shown c = true

namespace Shows

variable {shown : Char → Bool} {as bs : List Char}

theorem append (ha : Shows shown as) (hb : Shows shown bs) : Shows shown (as ++ bs) := by
  constructor
  · rw [quoteAfter_append, ha.closed, hb.closed]
  · intro c hc
    rw [mask_append ha.closed, List.mem_append] at hc
    exact hc.elim (ha.all c) (hb.all c)

/-- A text without quote marks shows itself. -/
theorem of_forall (h : ∀ c ∈ as, Literal.isQuote c = false ∧ shown c = true) : Shows shown as := by
  obtain ⟨hmask, hclosed⟩ := mask_of_no_quote fun c hc => (h c hc).1
  exact ⟨hclosed, fun c hc => (h c (hmask ▸ hc)).2⟩

theorem singleton {c : Char} (hquote : Literal.isQuote c = false) (hc : shown c = true) :
    Shows shown [c] :=
  of_forall fun _ hd => List.mem_singleton.1 hd ▸ ⟨hquote, hc⟩

end Shows

/-- The mask of a quoted text shows its marks. -/
theorem mask_quoted {q : Char} {cs : List Char} (isMark : Literal.isQuote q = true)
    (inside : q ∉ cs) : mask (q :: cs ++ [q]) = q :: (List.replicate cs.length filler ++ [q]) := by
  have hstep : stepQuote none q = some q := by simp [stepQuote, isMark]
  rw [mask_eq_maskFrom, List.cons_append, maskFrom, hstep, (maskFrom_enclosed inside).1]
  rfl

theorem isQuote_of_isBlank {c : Char} (h : Text.isBlank c = true) : Literal.isQuote c = false :=
  eq_false_of_class mem_of_isQuote (by decide) h

theorem mask_blanks (b : Blanks) : mask b.chars = b.chars :=
  (mask_of_no_quote fun c hc => isQuote_of_isBlank (b.blank c hc)).1

theorem mask_operator {c : Char} (h : operators.contains c = true) : mask [c] = [c] :=
  (mask_of_no_quote fun d hd => by rw [List.mem_singleton.1 hd, isQuote_of_operator h]).1

section Shows

variable {shown : Char → Bool} (hflat : ∀ c, isFlatChar c = true → shown c = true)

include hflat

theorem Shows.blanks (b : Blanks) : Shows shown b.chars :=
  .of_forall fun c hc =>
    ⟨isQuote_of_isBlank (b.blank c hc), hflat c (by simp [isFlatChar, b.blank c hc])⟩

theorem Shows.operator {c : Char} (h : operators.contains c = true) : Shows shown [c] :=
  .singleton (isQuote_of_operator h) (hflat c (isFlatChar_of_operator h))

theorem Leaf.shows (l : Leaf) : Shows shown l.text := by
  cases l with
  | number cs reads =>
    refine .of_forall fun c hc => ?_
    rcases mem_numeral reads c hc with h | h
    · exact ⟨isQuote_of_isWordPart h, hflat c (by simp [isFlatChar, h])⟩
    · exact ⟨isQuote_of_operator h, hflat c (isFlatChar_of_operator h)⟩
  | quoted q cs isMark inside =>
    refine ⟨(mask_enclosed isMark inside).2, fun c hc => hflat c ?_⟩
    rw [Leaf.text, mask_quoted isMark inside] at hc
    simp only [List.mem_cons, List.mem_append, List.mem_replicate, List.not_mem_nil,
      or_false] at hc
    rcases hc with rfl | ⟨-, rfl⟩ | rfl
    · simp [isFlatChar, isMark]
    · decide
    · simp [isFlatChar, isMark]
  | name cs identifier =>
    refine .of_forall fun c hc => ?_
    have h : isWordPart c = true := by
      simp [isWordPart, isNameChar_of_isIdentifier identifier c hc]
    exact ⟨isQuote_of_isWordPart h, hflat c (by simp [isFlatChar, h])⟩

mutual

/-- Operands leave no quote open, and show parentheses only around groups. -/
theorem Operand.shows : (o : Operand) → (o.IsFlat ∨ shown '(' = true ∧ shown ')' = true) →
    Shows shown o.text
  | .leaf l, _ => l.shows hflat
  | .signed negative gap o, h =>
    ((Shows.operator hflat (operators_signSymbol negative)).append (.blanks hflat gap)).append
      (Operand.shows o h)
  | .group front inside back, h => by
    have hparen := h.resolve_left id
    have hopen : Shows shown ['('] := .singleton (by decide) hparen.1
    have hclose : Shows shown [')'] := .singleton (by decide) hparen.2
    exact (((hopen.append (.blanks hflat front)).append
      (Formula.shows inside (.inr hparen))).append (.blanks hflat back)).append hclose

/-- Formulas leave no quote open, and show parentheses only around groups. -/
theorem Formula.shows : (s : Sequence Operand) →
    (Formula.IsFlat s ∨ shown '(' = true ∧ shown ')' = true) → Shows shown (Formula.text s)
  | .single o, h => Operand.shows o (h.imp_left fun hs => hs o (by simp [Sequence.operands]))
  | .link o before op after rest, h => by
    have ho := Operand.shows o (h.imp_left fun hs => hs o (by simp [Sequence.operands]))
    have hrest := Formula.shows rest
      (h.imp_left fun hs o' ho' => hs o' (by simp [Sequence.operands, ho']))
    have hop : Shows shown (before.chars ++ ([op.symbol] ++ after.chars)) :=
      (Shows.blanks hflat before).append
        ((Shows.operator hflat (operators_symbol op)).append (.blanks hflat after))
    exact (ho.append hop).append hrest

end

end Shows

/-- Any formula leaves no quote open. -/
theorem Formula.closed (s : Formula) : quoteAfter none (Formula.text s) = none := by
  have hshows : Shows (fun _ => true) (Formula.text s) :=
    Formula.shows (fun _ _ => rfl) s (.inr ⟨rfl, rfl⟩)
  exact hshows.closed

theorem Operand.closed (o : Operand) : quoteAfter none o.text = none := Formula.closed (.single o)

end BusinessRules.Expression

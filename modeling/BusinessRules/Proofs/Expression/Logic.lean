import BusinessRules.Proofs.Expression.Conjunction

/-!
# Texts of conditions

A condition text is split at its connectives, and each part is taken apart at its comparison
operator, on masks that are made anew for every part.  What is evaluated are the atoms of the
conjunction that the text stands for, whatever its quoted texts hold.

## Main statements

* `mainComparison?_symbol`: the operator of a comparison is found
* `evaluateComparison_atom`: the truth of an atom's text
* `evaluateBoolean_conjunction`: the truth of the text of a conjunction
* `evaluateCondition_text`: the truth of a condition
* `evaluateCondition_conjunction`: when a condition fails, and what does not matter for it
-/

namespace BusinessRules.Expression

open Text (Blanks Tight)

/-! ## Comparison operators -/

/-- The characters of comparison operators. -/
def isComparisonChar (c : Char) : Bool := c = '<' || c = '>' || c = '=' || c = '!'

theorem mem_of_isComparisonChar (c : Char) (h : isComparisonChar c = true) :
    c ∈ ['<', '>', '=', '!'] := by
  simpa [isComparisonChar, or_assoc] using h

theorem isSymbolChar_of_isComparisonChar {c : Char} (h : isComparisonChar c = true) :
    Literal.isQuote c = false ∧ isSymbolChar c = false := by
  simp only [isComparisonChar, Bool.or_eq_true, decide_eq_true_eq, or_assoc] at h
  rcases h with rfl | rfl | rfl | rfl <;> decide

theorem isComparisonChar_of_symbol (op : Comparison) :
    ∀ c ∈ op.symbol.toList, isComparisonChar c = true := by
  have hall : op.symbol.toList.all isComparisonChar = true := by
    cases op <;> decide
  exact List.all_eq_true.1 hall

section Search

variable {c : Char} {part whole : List Char}

/-- A text with a character that does not occur is not found. -/
theorem indexFrom?_eq_none (hpart : c ∈ part) (hwhole : c ∉ whole) (i : Nat) :
    Text.indexFrom? part whole i = none := by
  induction whole generalizing i with
  | nil =>
    rw [Text.indexFrom?, if_neg]
    rw [List.isEmpty_iff]
    exact List.ne_nil_of_mem hpart
  | cons d whole ih =>
    rw [Text.indexFrom?, if_neg]
    · exact ih (fun h => hwhole (List.mem_cons_of_mem d h)) (i + 1)
    · intro h
      exact hwhole ((List.isPrefixOf_iff_prefix.1 h).subset hpart)

/-- A text is not found where its first character does not stand. -/
theorem indexFrom?_append {front : List Char} (h : c ∉ front) (whole : List Char) (i : Nat) :
    Text.indexFrom? (c :: part) (front ++ whole) i =
      Text.indexFrom? (c :: part) whole (i + front.length) := by
  induction front generalizing i with
  | nil => rfl
  | cons d front ih =>
    have hd : (c :: part).isPrefixOf (d :: (front ++ whole)) = false := by
      rw [List.isPrefixOf_cons_cons, beq_eq_false_iff_ne.2, Bool.false_and]
      rintro rfl
      exact h List.mem_cons_self
    rw [List.cons_append, Text.indexFrom?, hd, if_neg Bool.false_ne_true,
      ih (fun hc => h (List.mem_cons_of_mem d hc)), List.length_cons, Nat.add_right_comm,
      Nat.add_assoc]

theorem indexFrom?_prefix (hne : part ++ whole ≠ []) (i : Nat) :
    Text.indexFrom? part (part ++ whole) i = some i := by
  obtain ⟨d, rest, hrest⟩ := List.exists_cons_of_ne_nil hne
  have hprefix : part.isPrefixOf (d :: rest) = true :=
    List.isPrefixOf_iff_prefix.2 (hrest ▸ List.prefix_append part whole)
  rw [hrest, Text.indexFrom?, if_pos hprefix]

end Search

section Between

variable {left right : List Char} (hleft : ∀ c ∈ left, isComparisonChar c = false)
  (hright : ∀ c ∈ right, isComparisonChar c = false)

include hleft hright

/-- Operators are not found next to one that lacks one of their characters. -/
theorem indexFrom?_other {op other : Comparison} {c : Char} (hother : c ∈ other.symbol.toList)
    (hop : c ∉ op.symbol.toList) :
    Text.indexFrom? other.symbol.toList (left ++ (op.symbol.toList ++ right)) 0 = none := by
  have hc := isComparisonChar_of_symbol other c hother
  refine indexFrom?_eq_none hother ?_ 0
  simp only [List.mem_append, not_or]
  refine ⟨fun h => ?_, hop, fun h => ?_⟩
  · rw [hleft c h] at hc
    cases hc
  · rw [hright c h] at hc
    cases hc

/-- A double equals sign is not found where a single one stands. -/
theorem indexFrom?_eq_ne :
    Text.indexFrom? ['=', '='] (left ++ ('!' :: '=' :: right)) 0 = none := by
  have hequals : ∀ {cs : List Char}, (∀ c ∈ cs, isComparisonChar c = false) → '=' ∉ cs :=
    fun hcs hmem => Bool.false_ne_true ((hcs '=' hmem).symm.trans (by decide))
  have hfront : '=' ∉ left ++ ['!'] := by
    rw [List.mem_append, not_or]
    exact ⟨hequals hleft, by decide⟩
  have hprefix : ['=', '='].isPrefixOf ('=' :: right) = false := by
    rw [Bool.eq_false_iff]
    intro h
    obtain ⟨rest, hrest⟩ := List.isPrefixOf_iff_prefix.1 h
    exact hequals hright (List.tail_eq_of_cons_eq hrest ▸ List.mem_cons_self)
  rw [show left ++ ('!' :: '=' :: right) = (left ++ ['!']) ++ ('=' :: right) by simp,
    indexFrom?_append hfront, Text.indexFrom?, hprefix, if_neg Bool.false_ne_true]
  exact indexFrom?_eq_none List.mem_cons_self (hequals hright) _

/-- **A comparison operator between texts without such characters is found.** -/
theorem mainComparison?_symbol (op : Comparison) :
    mainComparison? (left ++ (op.symbol.toList ++ right)) = some (op, left.length) := by
  -- The operators that are looked for first all have a character that is missing here, except
  -- for the double equals sign.
  obtain ⟨before, after, hall, hbefore⟩ : ∃ before after, Comparison.all = before ++ op :: after ∧
      ∀ other ∈ before, Text.indexFrom? other.symbol.toList
        (left ++ (op.symbol.toList ++ right)) 0 = none := by
    cases op with
    | ge => exact ⟨[], _, rfl, by simp⟩
    | le =>
      refine ⟨[.ge], _, rfl, fun other hother => ?_⟩
      rw [List.mem_singleton.1 hother]
      exact indexFrom?_other hleft hright (c := '>') (by decide) (by decide)
    | eq =>
      refine ⟨[.ge, .le], _, rfl, fun other hother => ?_⟩
      rcases List.mem_pair.1 hother with rfl | rfl
      · exact indexFrom?_other hleft hright (c := '>') (by decide) (by decide)
      · exact indexFrom?_other hleft hright (c := '<') (by decide) (by decide)
    | ne =>
      refine ⟨[.ge, .le, .eq], _, rfl, fun other hother => ?_⟩
      simp only [List.mem_cons, List.not_mem_nil, or_false] at hother
      rcases hother with rfl | rfl | rfl
      · exact indexFrom?_other hleft hright (c := '>') (by decide) (by decide)
      · exact indexFrom?_other hleft hright (c := '<') (by decide) (by decide)
      · exact indexFrom?_eq_ne hleft hright
    | gt =>
      refine ⟨[.ge, .le, .eq, .ne], _, rfl, fun other hother => ?_⟩
      have hequals : '=' ∈ other.symbol.toList := by
        simp only [List.mem_cons, List.not_mem_nil, or_false] at hother
        rcases hother with rfl | rfl | rfl | rfl <;> decide
      exact indexFrom?_other hleft hright hequals (by decide)
    | lt =>
      refine ⟨[.ge, .le, .eq, .ne, .gt], _, rfl, fun other hother => ?_⟩
      obtain ⟨c, hc, hlt⟩ : ∃ c ∈ other.symbol.toList, c ∉ Comparison.lt.symbol.toList := by
        simp only [List.mem_cons, List.not_mem_nil, or_false] at hother
        rcases hother with rfl | rfl | rfl | rfl | rfl
        · exact ⟨'=', by decide, by decide⟩
        · exact ⟨'=', by decide, by decide⟩
        · exact ⟨'=', by decide, by decide⟩
        · exact ⟨'=', by decide, by decide⟩
        · exact ⟨'>', by decide, by decide⟩
      exact indexFrom?_other hleft hright hc hlt
  have hfound : Text.indexFrom? op.symbol.toList (left ++ (op.symbol.toList ++ right)) 0 =
      some left.length := by
    obtain ⟨c, rest, hsymbol⟩ : ∃ c rest, op.symbol.toList = c :: rest := by
      cases op <;> exact ⟨_, _, rfl⟩
    have hc : c ∉ left := by
      intro hmem
      have := isComparisonChar_of_symbol op c (hsymbol ▸ List.mem_cons_self)
      rw [hleft c hmem] at this
      cases this
    rw [hsymbol, indexFrom?_append hc, indexFrom?_prefix (by simp), Nat.zero_add]
  have hnone : before.findSome? (fun other => (Text.indexFrom? other.symbol.toList
      (left ++ (op.symbol.toList ++ right)) 0).map (other, ·)) = none := by
    rw [List.findSome?_eq_none_iff]
    intro other hother
    rw [hbefore other hother, Option.map_none]
  rw [mainComparison?, hall, List.findSome?_append, hnone, Option.none_or, List.findSome?_cons,
    hfound, Option.map_some]

end Between

theorem mainComparison?_eq_none {cs : List Char} (h : ∀ c ∈ cs, isComparisonChar c = false) :
    mainComparison? cs = none := by
  rw [mainComparison?, List.findSome?_eq_none_iff]
  intro op _
  obtain ⟨c, hc⟩ : ∃ c, c ∈ op.symbol.toList := by
    cases op <;> exact ⟨_, List.mem_cons_self⟩
  rw [indexFrom?_eq_none hc, Option.map_none]
  intro hmem
  have := isComparisonChar_of_symbol op c hc
  rw [h c hmem] at this
  cases this

/-! ## Texts of atoms and of what they make up -/

theorem Side.closed (s : Side) : quoteAfter none s.text = none := Formula.closed s.formula

theorem Side.tight (s : Side) : Tight s.text := Formula.tight s.formula

theorem Side.lacks {k : Connective} (s : Side) : Lacks k (mask s.text) :=
  Formula.lacks s.formula s.free

/-- No side shows a character of a comparison operator. -/
theorem Side.isComparisonChar (s : Side) : ∀ c ∈ mask s.text, isComparisonChar c = false := by
  have hshows : Shows (fun c => !Expression.isComparisonChar c) s.text := by
    refine Formula.shows (fun c hc => ?_) s.formula (.inr (by decide))
    rw [eq_false_of_class mem_of_isComparisonChar (by decide) hc, Bool.not_false]
  intro c hc
  have := hshows.all c hc
  rwa [Bool.not_eq_true'] at this

theorem isComparisonChar_of_isBlank {c : Char} (h : Text.isBlank c = true) :
    isComparisonChar c = false :=
  eq_false_of_class mem_of_isComparisonChar (by decide) h

/-- The text between the two sides of a comparison. -/
theorem wordless_symbol (before : Blanks) (op : Comparison) (after : Blanks) :
    Wordless (before.chars ++ op.symbol.toList ++ after.chars) :=
  ((Wordless.blanks before).append fun c hc =>
    isSymbolChar_of_isComparisonChar (isComparisonChar_of_symbol op c hc)).append (.blanks after)

theorem symbol_ne_nil (op : Comparison) : op.symbol.toList ≠ [] := by
  cases op <;> decide

/-- Connectives leave an atom whole. -/
theorem Atom.whole {k : Connective} (a : Atom) : Whole k a.text := by
  cases a with
  | comparison lhs before op after rhs =>
    have hmid := wordless_symbol before op after
    refine ⟨lhs.tight.append rhs.tight _, ?_, ?_⟩
    · rw [Atom.text, quoteAfter_append, quoteAfter_append, lhs.closed,
        (mask_of_no_quote fun c hc => (hmid c hc).1).2, rhs.closed]
    · refine hmid.lacks_between ?_ lhs.closed lhs.lacks rhs.lacks
      simp [symbol_ne_nil op]
  | bare value => exact ⟨value.tight, value.closed, value.lacks⟩

/-- Conjunctions begin and end without blanks. -/
theorem Conjunction.tight (c : Conjunction) : Tight c.text :=
  Joined.tight c fun d _ => d.tight fun a _ => (Atom.whole (k := .and) a).tight

/-- Blanks around an arithmetic text do not matter. -/
theorem evaluateArithmetic_padded (p : Precision) (names : Names) (front back : Blanks)
    (cs : List Char) :
    evaluateArithmetic p names (front.chars ++ cs ++ back.chars) =
      evaluateArithmetic p names cs := by
  rw [evaluateArithmetic, Text.trim_padded front.blank back.blank, evaluateArithmetic]

/-- **The truth of its text is the truth of an atom.** -/
theorem evaluateComparison_atom (p : Precision) (names : Names) (a : Atom) :
    evaluateComparison p names a.text = a.truth p names := by
  cases a with
  | comparison lhs before op after rhs =>
    -- On the mask, only the operator between the sides has characters of operators.
    have hmask : mask (Atom.comparison lhs before op after rhs).text =
        (mask lhs.text ++ before.chars) ++
          (op.symbol.toList ++ (after.chars ++ mask rhs.text)) := by
      rw [Atom.text, List.append_assoc, mask_append lhs.closed,
        (wordless_symbol before op after).mask_append]
      simp
    have hleft : ∀ c ∈ mask lhs.text ++ before.chars, isComparisonChar c = false := by
      intro c hc
      rcases List.mem_append.1 hc with hc | hc
      · exact lhs.isComparisonChar c hc
      · exact isComparisonChar_of_isBlank (before.blank c hc)
    have hright : ∀ c ∈ after.chars ++ mask rhs.text, isComparisonChar c = false := by
      intro c hc
      rcases List.mem_append.1 hc with hc | hc
      · exact isComparisonChar_of_isBlank (after.blank c hc)
      · exact rhs.isComparisonChar c hc
    have htext : (Atom.comparison lhs before op after rhs).text =
        (lhs.text ++ before.chars) ++ (op.symbol.toList ++ (after.chars ++ rhs.text)) := by
      simp [Atom.text]
    have hlength : (mask lhs.text ++ before.chars).length = (lhs.text ++ before.chars).length := by
      simp
    have htake : (Atom.comparison lhs before op after rhs).text.take
        (mask lhs.text ++ before.chars).length = Blanks.none.chars ++ lhs.text ++ before.chars := by
      rw [htext, hlength, List.take_left]
      rfl
    have hdrop : (Atom.comparison lhs before op after rhs).text.drop
        ((mask lhs.text ++ before.chars).length + op.symbol.length) =
          after.chars ++ rhs.text ++ Blanks.none.chars := by
      rw [htext, hlength, ← List.drop_drop, List.drop_left, ← String.length_toList, List.drop_left]
      exact (List.append_nil _).symm
    rw [evaluateComparison, hmask, mainComparison?_symbol hleft hright]
    simp only [htake, hdrop, evaluateArithmetic_padded, Atom.truth]
    cases evaluateArithmetic p names lhs.text with
    | error f => rfl
    | ok v =>
      cases evaluateArithmetic p names rhs.text with
      | error f => rfl
      | ok w => rfl
  | bare value =>
    rw [evaluateComparison, Atom.text, mainComparison?_eq_none value.isComparisonChar, Atom.truth]
    cases evaluateArithmetic p names value.text with
    | error f => rfl
    | ok v => rfl

/-- **The truth of its text is the truth of a conjunction.** -/
theorem evaluateBoolean_conjunction (p : Precision) (names : Names) (c : Conjunction)
    (front back : Blanks) :
    evaluateBoolean p names (front.chars ++ c.text ++ back.chars) =
      c.holds (Atom.truth p names) := by
  have hdisjunction : ∀ d ∈ c.items, Whole .and (Joined.text Atom.text d) :=
    fun d _ => d.whole (by decide) fun a _ => a.whole
  rw [evaluateBoolean, c.tight.trim front.blank back.blank, Conjunction.text,
    parts_joined c hdisjunction, allOf_eq_testWhile, testWhile_map, Conjunction.holds,
    allOf_eq_testWhile]
  -- Each disjunction is split on a mask of its own.
  refine testWhile_congr fun _ d _ _ _ => ?_
  rw [parts_joined d fun a _ => a.whole, anyOf_eq_testWhile, testWhile_map, Disjunction.holds,
    anyOf_eq_testWhile]
  exact testWhile_congr fun _ a _ _ _ => evaluateComparison_atom p names a

/-- A condition that is the text of a conjunction holds if the conjunction does. -/
theorem evaluateCondition_text (env : Environment) (context : Context) (c : Conjunction)
    (front back : Blanks) :
    evaluateCondition env context (String.ofList (front.chars ++ c.text ++ back.chars)) =
      env.precision.bind fun p => c.holds (Atom.truth p context.values) := by
  rw [evaluateCondition, c.tight.isBlankText, if_neg Bool.false_ne_true]
  cases env.precision with
  | error f => rfl
  | ok p => simp only [String.toList_ofList, evaluateBoolean_conjunction, Except.bind]

/-- **The text of a conjunction is evaluated as the conjunction is, from left to right.**  It fails
exactly if an atom that is reached fails, and then with the fault of that atom; whatever the other
atoms are taken for makes no difference. -/
theorem evaluateCondition_conjunction (env : Environment) (context : Context) (c : Conjunction)
    (front back : Blanks) :
    evaluateCondition env context (String.ofList (front.chars ++ c.text ++ back.chars)) =
        (env.precision.bind fun p => c.holds (Atom.truth p context.values)) ∧
      ∀ p, env.precision = .ok p →
        (∀ f, evaluateCondition env context
            (String.ofList (front.chars ++ c.text ++ back.chars)) = .error f ↔
          ∃ a, c.Reaches (Atom.truth p context.values) a ∧ a.truth p context.values = .error f) ∧
        ∀ test : Atom → Outcome Bool,
          (∀ a, c.Reaches (Atom.truth p context.values) a → test a = a.truth p context.values) →
          evaluateCondition env context
            (String.ofList (front.chars ++ c.text ++ back.chars)) = c.holds test := by
  refine ⟨evaluateCondition_text env context c front back, fun p henv => ?_⟩
  rw [evaluateCondition_text, henv]
  refine ⟨fun f => Conjunction.holds_eq_error_iff, fun test htest => ?_⟩
  exact (Conjunction.holds_congr htest).symm

/-- The conjunction `a == "b or c" OR d > 7 && 8 < 9`. -/
def sampleConjunction : Conjunction :=
  let digit (c : Char) (reads : (Numeral.read? [c]).isSome = true) : Side :=
    .ofLeaf (.number [c] reads) id
  let name (c : Char) (identifier : isIdentifier [c] = true)
      (free : ∀ k : Connective, [c].map Char.toLower ∉ k.spellings) : Side :=
    .ofLeaf (.name [c] identifier) fun h => h.elim free
  let quoted : Side := .ofLeaf (.quoted '"' "b or c".toList (by decide) (by decide)) id
  .link
    (.link (.comparison (name 'a' (by decide) fun k => by cases k <;> decide) .space .eq .space
        quoted)
      (.spaced ['O', 'R'] (by decide))
      (.single (.comparison (name 'd' (by decide) fun k => by cases k <;> decide) .space .gt .space
        (digit '7' (by decide)))))
    (.spaced ['&', '&'] (by decide))
    (.single (.single (.comparison (digit '8' (by decide)) .space .lt .space
      (digit '9' (by decide)))))

/-- A connective in a text joins nothing, and a name that is not reached need not be bound. -/
theorem evaluateCondition_sample :
    evaluateCondition [] (.facts ⟨[("a", .text "b or c")]⟩)
      "a == \"b or c\" OR d > 7 && 8 < 9" = .ok true := by
  have henv : Environment.precision [] = .ok ⟨28, by decide, by decide⟩ := rfl
  have hholds : sampleConjunction.holds (Atom.truth ⟨28, by decide, by decide⟩
      (Context.facts ⟨[("a", .text "b or c")]⟩).values) = .ok true := by decide +kernel
  have htext : "a == \"b or c\" OR d > 7 && 8 < 9" =
      String.ofList (Blanks.none.chars ++ sampleConjunction.text ++ Blanks.none.chars) := by
    decide +kernel
  obtain ⟨-, hreached⟩ := evaluateCondition_conjunction []
    (.facts ⟨[("a", .text "b or c")]⟩) sampleConjunction .none .none
  rw [htext, (hreached _ henv).2 _ fun _ _ => rfl, hholds]

end BusinessRules.Expression

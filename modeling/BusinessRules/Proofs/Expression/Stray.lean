import BusinessRules.Expression.Statement
import BusinessRules.Proofs.Expression.Cut
import BusinessRules.Proofs.Expression.Flat

/-!
# Stray comparison characters

The evaluator looks for operators by searching texts, puts literals in the place of groups and
writes compound assignments out.  A character of a comparison operator outside quotes survives all
of this, as no literal shows one, and at the end it stands in a text that is neither a literal nor
a name.  So wherever such a character is not the operator of the one comparison of a text, or the
sign of an assignment, the evaluation fails.

## Main definitions

* `isRelational`: the characters of comparison operators and of symbols between comparisons
* `Calm`: a text that shows none of them
* `ShowsOnce`: a masked text that shows a part once and no relational character elsewhere
* `HasConnective`: a masked text in which a connective is found

## Main statements

* `calm_of_evaluateArithmetic`: only calm texts have values
* `evaluate_misplaced`: which conditions have a truth value, and which expressions a value
-/

namespace BusinessRules.Expression

open Text (Blanks)

/-! ## Calm texts -/

/-- The characters of comparison operators, and of the symbols between comparisons. -/
def isRelational (c : Char) : Bool := isComparisonChar c || c = '&' || c = '|'

/-- A text that shows no relational character. -/
def Calm (cs : List Char) : Prop := ∀ c ∈ mask cs, isRelational c = false

theorem mem_of_isRelational (c : Char) (h : isRelational c = true) :
    c ∈ ['<', '>', '=', '!', '&', '|'] := by
  simpa [isRelational, isComparisonChar, or_assoc] using h

theorem isRelational_of_isFlatChar {c : Char} (h : isFlatChar c = true) :
    isRelational c = false :=
  eq_false_of_class mem_of_isRelational (by decide) h

theorem isRelational_of_isBlank {c : Char} (h : Text.isBlank c = true) : isRelational c = false :=
  isRelational_of_isFlatChar (by simp [isFlatChar, h])

theorem isRelational_of_operator {c : Char} (h : operators.contains c = true) :
    isRelational c = false :=
  isRelational_of_isFlatChar (isFlatChar_of_operator h)

theorem calm_of_forall {cs : List Char} (h : ∀ c ∈ cs, isRelational c = false) : Calm cs := by
  intro c hc
  rcases mem_mask hc with hc | rfl
  · exact h c hc
  · decide

theorem calm_of_shows {cs : List Char} (h : Shows isFlatChar cs) : Calm cs :=
  fun c hc => isRelational_of_isFlatChar (h.all c hc)

/-- What trimming takes off is calm. -/
theorem exists_calm_trim (cs : List Char) :
    ∃ front back, mask cs = front ++ mask (Text.trim cs) ++ back ∧
      ∀ c ∈ front ++ back, isRelational c = false := by
  obtain ⟨front, back, hmask, houter⟩ := mask_trim cs
  refine ⟨front, back, hmask, fun c hc => ?_⟩
  rcases houter c hc with hblank | rfl
  · exact isRelational_of_isBlank hblank
  · decide

theorem calm_trim {cs : List Char} : Calm (Text.trim cs) ↔ Calm cs := by
  obtain ⟨front, back, hmask, houter⟩ := exists_calm_trim cs
  rw [Calm, Calm, hmask]
  constructor
  · intro hcalm c hc
    rcases List.mem_append.1 hc with hc | hc
    · rcases List.mem_append.1 hc with hc | hc
      · exact houter c (List.mem_append_left back hc)
      · exact hcalm c hc
    · exact houter c (List.mem_append_right front hc)
  · exact fun hcalm c hc => hcalm c (List.mem_append_left back (List.mem_append_right front hc))

/-- A mask in three parts is calm if all of them are. -/
theorem calm_of_parts {cs : List Char} {c : Char} {as bs : List Char}
    (h : mask cs = mask as ++ c :: mask bs) (hc : isRelational c = false) (has : Calm as)
    (hbs : Calm bs) : Calm cs := by
  intro d hd
  rw [h, List.mem_append, List.mem_cons] at hd
  rcases hd with hd | rfl | hd
  · exact has d hd
  · exact hc
  · exact hbs d hd

/-! ## Words -/

theorem isIdentifier_of_word? {cs : List Char} {v : Value} (h : Literal.word? cs = some v) :
    isIdentifier cs = true := by
  have hstart : ∀ c : Char, c.toLower.isLower = true → isNameStart c = true := by
    intro c hc
    by_cases hupper : c.isUpper = true
    · simp [isNameStart, Char.isAlpha, hupper]
    · rw [Char.toLower_eq_of_not_isUpper hupper] at hc
      simp [isNameStart, Char.isAlpha, hc]
  have hword : ∀ c : Char, isNameStart c = true → isNameChar c = true := by
    intro c hc
    rw [isNameStart, Bool.or_eq_true] at hc
    rw [isNameChar, Char.isAlphanum, Bool.or_eq_true, Bool.or_eq_true]
    exact hc.imp_left .inl
  have hlower : cs ≠ [] ∧ ∀ c ∈ cs, isNameStart c = true := by
    have hall : cs.map Char.toLower ≠ [] ∧ ∀ c ∈ cs.map Char.toLower, c.isLower = true := by
      rcases mem_toLower_of_word? h with h | h | h
      all_goals
        rw [h]
        exact ⟨List.cons_ne_nil _ _, List.all_eq_true.1 (by decide)⟩
    exact ⟨fun hnil => hall.1 (by rw [hnil]; rfl),
      fun c hc => hstart c (hall.2 _ (List.mem_map_of_mem hc))⟩
  obtain ⟨c, rest, rfl⟩ := List.exists_cons_of_ne_nil hlower.1
  rw [isIdentifier, Bool.and_eq_true, List.all_eq_true]
  exact ⟨hlower.2 c List.mem_cons_self,
    fun d hd => hword d (hlower.2 d (List.mem_cons_of_mem c hd))⟩

theorem exists_of_unquote? {cs inner : List Char} (h : Literal.unquote? cs = some inner) :
    ∃ q, Literal.isQuote q = true ∧ q ∉ inner ∧ cs = q :: inner ++ [q] := by
  cases cs with
  | nil => cases h
  | cons q cs =>
    rw [Literal.unquote?] at h
    split at h
    · next hquoted =>
      cases h
      simp only [Bool.and_eq_true, beq_iff_eq, Bool.not_eq_true', List.contains_eq_mem,
        decide_eq_false_iff_not] at hquoted
      obtain ⟨⟨hmark, hlast⟩, hinside⟩ := hquoted
      refine ⟨q, hmark, hinside, ?_⟩
      rw [List.cons_append, List.dropLast_append_getLast? q hlast]
    · cases h

/-- A text that is a literal is a word of the grammar. -/
theorem exists_leaf_of_read? {cs : List Char} {v : Value} (h : Literal.read? cs = .ok (some v)) :
    ∃ l : Leaf, l.text = Text.trim cs := by
  rw [Literal.read?] at h
  split at h
  · next n hn => exact ⟨.number (Text.trim cs) (by rw [hn]; rfl), rfl⟩
  · split at h
    · next inner hinner =>
      obtain ⟨q, isMark, inside, hcs⟩ := exists_of_unquote? hinner
      exact ⟨.quoted q inner isMark inside, hcs.symm⟩
    · exact ⟨.name (Text.trim cs) (isIdentifier_of_word? (Except.ok.inj h)), rfl⟩

/-! ## Values of arithmetic texts -/

/-- Names that hold no relational character, if they are bound. -/
def Unrelated (names : Names) : Prop :=
  ∀ name v, names name = .ok (some v) → ∀ c ∈ name.toList, isRelational c = false

variable {p : Precision} {names : Names}

theorem calm_of_resolve (hnames : Unrelated names) {cs : List Char} {v : Value}
    (h : resolve names cs = .ok v) : Calm cs := by
  rw [resolve] at h
  split at h
  · cases h
  · next w hw =>
    have hplain := hnames _ w hw
    rw [String.toList_ofList] at hplain
    exact calm_of_forall hplain
  · split at h <;> cases h

/-- A text without groups has a value only if it is calm. -/
theorem calm_of_evaluateFlat (hnames : Unrelated names) {cs : List Char} {v : Value}
    (h : evaluateFlat p names cs = .ok v) : Calm cs := by
  fun_induction evaluateFlat p names cs generalizing v with
  | case1 cs hparen => cases h
  | case2 cs hparen op i hop f hleft ih => cases h
  | case3 cs hparen op i hop left hleft f hright ihleft ihright => cases h
  | case4 cs hparen op i hop left hleft right hright ihleft ihright =>
    exact calm_of_parts (mask_operation hop)
      (isRelational_of_operator (getElem?_of_mainOperator? hop).2)
      (calm_trim.1 (ihleft hleft)) (calm_trim.1 (ihright hright))
  | case5 cs hparen hop hempty => cases h
  | case6 cs hparen hop hempty f hread => cases h
  | case7 cs hparen hop hempty w hread =>
    obtain ⟨l, hl⟩ := exists_leaf_of_read? hread
    exact calm_trim.1 (hl ▸ calm_of_shows (l.shows fun _ => id))
  | case8 cs hparen hop hempty hread sign rest hsign f hrest ih => cases h
  | case9 cs hparen hop hempty hread sign rest hsign w hrest ih =>
    obtain ⟨hoperator, hmask⟩ := mask_signed hsign
    have hparts : mask cs = mask [] ++ sign :: mask rest := hmask
    exact calm_of_parts hparts (isRelational_of_operator hoperator) (by simp [Calm, mask])
      (calm_trim.1 (ih hrest))
  | case10 cs hparen hop hempty hread hsign => exact calm_of_resolve hnames h

/-- A text has a value only if it is calm.  What a literal replaces was calm, and what surrounds
the literal is calm if the text with the literal is. -/
theorem calm_of_evaluateGroups (hnames : Unrelated names) {cs : List Char} {v : Value}
    (h : evaluateGroups p names cs = .ok v) : Calm cs := by
  fun_induction evaluateGroups p names cs generalizing v with
  | case1 cs hgroup hlast => cases h
  | case2 cs hgroup before inside after hlast f hinside => cases h
  | case3 cs hgroup before inside after hlast w hinside f hliteral => cases h
  | case4 cs hgroup before inside after hlast w hinside literal hliteral ih =>
    have hspliced := calm_trim.1 (ih h)
    have hbefore := (lastGroup?_eq_some hlast).2.1
    rw [Calm, List.append_assoc, mask_append hbefore, mask_append (mask_literal hliteral).2]
      at hspliced
    have hinner := calm_trim.1 (calm_of_evaluateFlat hnames hinside)
    intro c hc
    rw [(mask_group hlast).1] at hc
    simp only [List.mem_append, List.mem_cons] at hc hspliced
    rcases hc with (hc | rfl | hc) | rfl | hc
    · exact hspliced c (.inl hc)
    · decide
    · exact hinner c hc
    · decide
    · exact hspliced c (.inr (.inr hc))
  | case5 cs hgroup => exact calm_of_evaluateFlat hnames h

/-- **Only calm texts have values.** -/
theorem calm_of_evaluateArithmetic (hnames : Unrelated names) {cs : List Char} {v : Value}
    (h : evaluateArithmetic p names cs = .ok v) : Calm cs :=
  calm_trim.1 (calm_of_evaluateGroups hnames h)

/-! ## Conditions -/

/-- A masked text in which a connective is found. -/
def HasConnective (masked : List Char) : Prop :=
  ∃ (k : Connective) (s : Separator k) (front back : List Char), masked = front ++ s.text ++ back

/-- A masked text that shows a part once and no relational character elsewhere. -/
def ShowsOnce (part masked : List Char) : Prop :=
  ∃ left right, masked = left ++ part ++ right ∧ ∀ c ∈ left ++ right, isRelational c = false

theorem showsOnce_trim {part cs : List Char} (h : ShowsOnce part (mask (Text.trim cs))) :
    ShowsOnce part (mask cs) := by
  obtain ⟨front, back, hmask, houter⟩ := exists_calm_trim cs
  obtain ⟨left, right, hparts, hcalm⟩ := h
  rw [List.forall_mem_append] at houter hcalm
  refine ⟨front ++ left, right ++ back, by rw [hmask, hparts]; simp, ?_⟩
  exact List.forall_mem_append.2 ⟨List.forall_mem_append.2 ⟨houter.1, hcalm.1⟩,
    List.forall_mem_append.2 ⟨hcalm.2, houter.2⟩⟩

/-- The relational characters that show are those of the part. -/
theorem ShowsOnce.filter_eq {part masked : List Char} (h : ShowsOnce part masked) :
    masked.filter isRelational = part.filter isRelational := by
  obtain ⟨left, right, rfl, hcalm⟩ := h
  have hnone : ∀ cs : List Char, (∀ c ∈ cs, isRelational c = false) → cs.filter isRelational = [] :=
    fun cs hcs => List.filter_eq_nil_iff.2 fun c hc => by simp [hcs c hc]
  rw [List.forall_mem_append] at hcalm
  rw [List.filter_append, List.filter_append, hnone left hcalm.1, hnone right hcalm.2,
    List.nil_append, List.append_nil]

/-- Without the characters that spellings begin with there is no connective. -/
theorem not_hasConnective {masked : List Char}
    (h : ∀ c ∈ masked, c.toLower ∉ ['a', '&', 'o', '|']) : ¬ HasConnective masked := by
  rintro ⟨k, s, front, back, rfl⟩
  refine not_lacks_spelling s.spells (lacks_of_forall fun c hc => h c ?_)
  simp [Separator.text, hc]

/-- A comparison has a truth value only if one operator shows at most. -/
theorem showsOnce_of_evaluateComparison (hnames : Unrelated names) {cs : List Char} {b : Bool}
    (h : evaluateComparison p names cs = .ok b) :
    Calm cs ∨ ∃ op : Comparison, ShowsOnce op.symbol.toList (mask cs) := by
  rw [evaluateComparison] at h
  split at h
  · next op i hop =>
    split at h
    · cases h
    · next left hleft =>
      split at h
      · cases h
      · next right hright =>
        refine .inr ⟨op, _, _, mask_comparison hop, List.forall_mem_append.2 ⟨?_, ?_⟩⟩
        · exact calm_of_evaluateArithmetic hnames hleft
        · exact calm_of_evaluateArithmetic hnames hright
  · split at h
    · cases h
    · next v hv => exact .inl (calm_of_evaluateArithmetic hnames hv)

/-- A text without connectives is one comparison. -/
theorem evaluateBoolean_whole {cs : List Char} (h : ¬ HasConnective (mask cs)) :
    evaluateBoolean p names cs = evaluateComparison p names (Text.trim cs) := by
  have htrim : ∀ k, parts k (Text.trim cs) = [Text.trim cs] := fun k => by
    rw [parts_whole fun hk => h ⟨k, separates_trim hk⟩, Text.trim_trim]
  rw [evaluateBoolean, htrim, allOf_eq_testWhile, testWhile_singleton, htrim, anyOf_eq_testWhile,
    testWhile_singleton]

/-! ## Assignments -/

theorem isRelational_of_isNameChar {c : Char} (h : isNameChar c = true) : isRelational c = false :=
  isRelational_of_isFlatChar (by simp [isFlatChar, isWordPart, h])

/-- What the written-out form of a compound assignment shows. -/
theorem mask_expanded {name : List Char} (hname : isIdentifier name = true) {op : Char}
    (hop : operators.contains op = true) (right : List Char) :
    ∃ c, (c = ')' ∨ c = filler) ∧ mask (name ++ ' ' :: op :: ' ' :: '(' :: right ++ [')']) =
      name ++ ' ' :: op :: ' ' :: '(' :: (mask right ++ [c]) := by
  obtain ⟨hmask, hclosed⟩ := mask_name (isNameChar_of_isIdentifier hname)
  refine ⟨maskChar (quoteAfter none right) ')', ?_, ?_⟩
  · cases quoteAfter none right with
    | none => exact .inl rfl
    | some q =>
      rw [maskChar]
      split
      · exact .inl rfl
      · exact .inr rfl
  · rw [List.append_assoc, mask_append hclosed, hmask, List.cons_append, mask_cons (by decide),
      List.cons_append, mask_cons (isQuote_of_operator hop), List.cons_append,
      mask_cons (by decide), List.cons_append, mask_cons (by decide), mask_eq_maskFrom (right ++ _),
      maskFrom_append, ← mask_eq_maskFrom]
    rfl

/-- An assignment to a name is written with calm sides, if what is evaluated is calm. -/
theorem calm_of_expand {target right name text : List Char}
    (h : Statement.expand target right = (name, text)) (hname : isIdentifier name = true)
    (htext : Calm text) : Calm target ∧ Calm right := by
  have hchars : ∀ c ∈ name, isRelational c = false := fun c hc =>
    isRelational_of_isNameChar (isNameChar_of_isIdentifier hname c hc)
  rw [Statement.expand] at h
  split at h
  · next op hop =>
    split at h
    · next hoperator =>
      -- The right side stands in parentheses behind the name and the operator.
      cases h
      obtain ⟨bs, bs', hbs, hbs', htrim⟩ := Text.exists_trim target.dropLast
      constructor
      · refine calm_of_forall fun c hc => ?_
        rw [← List.dropLast_append_getLast? op hop, htrim] at hc
        simp only [List.mem_append, List.mem_singleton] at hc
        rcases hc with (hc | hc | hc) | rfl
        · exact isRelational_of_isBlank (hbs c hc)
        · exact hchars c hc
        · exact isRelational_of_isBlank (hbs' c hc)
        · exact isRelational_of_operator hoperator
      · obtain ⟨c, -, hmask⟩ := mask_expanded hname hoperator right
        intro d hd
        refine htext d ?_
        rw [hmask]
        simp [hd]
    · cases h
      exact ⟨calm_of_forall hchars, htext⟩
  · cases h
    exact ⟨calm_of_forall hchars, htext⟩

/-- An assignment is a text cut at an equals sign that shows, written out if it is a compound
one. -/
theorem exists_of_assign {given : String} {cs name text : List Char}
    (h : Statement.ofText given cs = .ok (.assign name text)) :
    ∃ i, (mask cs)[i]? = some '=' ∧ isIdentifier name = true ∧
      Statement.expand (Text.trim (cs.take i)) (Text.trim (cs.drop (i + 1))) = (name, text) := by
  rw [Statement.ofText] at h
  split at h
  · cases h
  · next i hi =>
    rcases hexpand : Statement.expand (Text.trim (cs.take i)) (Text.trim (cs.drop (i + 1)))
      with ⟨name', text'⟩
    simp only [hexpand] at h
    split at h
    · cases h
    · next hname =>
      split at h
      · cases h
      · cases h
        exact ⟨i, mem_occurrences.1 (hi ▸ List.mem_singleton_self i), by simpa using hname, hexpand⟩
  · cases h

/-- The sides of an assignment are calm if the statement has a value. -/
theorem showsOnce_of_assign {given : String} {cs name text : List Char}
    (h : Statement.ofText given cs = .ok (.assign name text)) (htext : Calm text) :
    ShowsOnce ['='] (mask cs) := by
  obtain ⟨i, hshown, hname, hexpand⟩ := exists_of_assign h
  obtain ⟨hleft, hright⟩ := calm_of_expand hexpand hname htext
  refine ⟨_, _, ?_, List.forall_mem_append.2 ⟨calm_trim.1 hleft, calm_trim.1 hright⟩⟩
  rw [(mask_cut hshown (by decide) (by decide)).2, List.append_assoc, List.singleton_append]

/-- A statement that only computes is the text itself. -/
theorem text_of_compute {given : String} {cs text : List Char}
    (h : Statement.ofText given cs = .ok (.compute text)) : text = cs := by
  rw [Statement.ofText] at h
  split at h
  · cases h
    rfl
  · simp only at h
    split at h
    · cases h
    · split at h <;> cases h
  · cases h

/-! ## Evaluations -/

/-- **Misplaced comparison characters are never read silently**, in a context none of whose names
holds such a character.  A condition without connectives has a truth value only if it shows no such
character outside quotes, or one comparison operator and no other one.  An expression has a value
only if it shows none, or one equals sign and no other one. -/
theorem evaluate_misplaced (env : Environment) {context : Context}
    (hcontext : ∀ name d, context.lookup name = .ok (some d) →
      ∀ c ∈ name.toList, isRelational c = false) (text : String) :
    (¬ HasConnective (mask text.toList) → ∀ b, evaluateCondition env context text = .ok b →
      Calm text.toList ∨
        ∃ op : Comparison, ShowsOnce op.symbol.toList (mask text.toList)) ∧
    ∀ r, evaluateExpression env context text = .ok r →
      Calm text.toList ∨ ShowsOnce ['='] (mask text.toList) := by
  have hnames : Unrelated context.values := by
    intro name v hv
    obtain ⟨d, hd, -⟩ := Context.exists_of_values hv
    exact hcontext name d hd
  have hblank : Text.isBlankText text = true → Calm text.toList := fun h =>
    calm_of_forall fun c hc => isRelational_of_isBlank (List.all_eq_true.1 h c hc)
  constructor
  · intro hconnective b h
    rw [evaluateCondition] at h
    split at h
    · next htext => exact .inl (hblank htext)
    · split at h
      · cases h
      · rw [evaluateBoolean_whole hconnective] at h
        rcases showsOnce_of_evaluateComparison hnames h with hcalm | ⟨op, honce⟩
        · exact .inl (calm_trim.1 hcalm)
        · exact .inr ⟨op, showsOnce_trim honce⟩
  · intro r h
    rw [evaluateExpression] at h
    split at h
    · next htext => exact .inl (hblank htext)
    · split at h
      · cases h
      · next p hp =>
        split at h
        · cases h
        · next statement hstatement =>
          cases statement with
          | compute cs =>
            rw [Statement.run] at h
            split at h
            · cases h
            · next v hv =>
              have hcs := text_of_compute hstatement
              exact .inl (calm_trim.1 (hcs ▸ calm_of_evaluateArithmetic hnames hv))
          | assign target right =>
            rw [Statement.run] at h
            split at h
            · cases h
            · next v hv =>
              exact .inr (showsOnce_trim
                (showsOnce_of_assign hstatement (calm_of_evaluateArithmetic hnames hv)))

/-- Comparisons cannot be chained, though each of the two holds by itself. -/
theorem evaluate_misplacedSample :
    evaluateCondition [] (.facts ⟨[("x", .int 5)]⟩) "1 < x" = .ok true ∧
      evaluateCondition [] (.facts ⟨[("x", .int 5)]⟩) "x < 9" = .ok true ∧
      ∀ b, evaluateCondition [] (.facts ⟨[("x", .int 5)]⟩) "1 < x < 9" ≠ .ok b := by
  refine ⟨by decide +kernel, by decide +kernel, fun b h => ?_⟩
  have hnames : ∀ name d, Context.lookup (.facts ⟨[("x", .int 5)]⟩) name = .ok (some d) →
      ∀ c ∈ name.toList, isRelational c = false := by
    intro name d hd
    have hname : name = "x" := by
      simp only [Context.lookup, Facts.get?, List.lookup] at hd
      split at hd
      · next hx => exact eq_of_beq hx
      · cases hd
    intro c hc
    have hx : c = 'x' := by simpa [hname] using hc
    rw [hx]
    decide
  have hconnective : ¬ HasConnective (mask "1 < x < 9".toList) := by
    have hall : (mask "1 < x < 9".toList).all (fun c => c.toLower ∉ ['a', '&', 'o', '|']) := by
      decide +kernel
    exact not_hasConnective fun c hc => by simpa using List.all_eq_true.1 hall c hc
  rcases (evaluate_misplaced [] hnames "1 < x < 9").1 hconnective b h with hcalm | ⟨op, honce⟩
  · exact absurd (hcalm '<' (by decide +kernel)) (by decide)
  · have hfilter := honce.filter_eq
    revert hfilter
    cases op <;> decide +kernel

end BusinessRules.Expression

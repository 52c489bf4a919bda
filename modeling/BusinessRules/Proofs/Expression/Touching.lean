import BusinessRules.Proofs.Expression.Locality

/-!
# Groups that touch an operand

A group is meant to be an operand of its own, so that nothing but blanks, operators and parentheses
may stand next to it.  This is never checked: the literal of its value is put between its
neighbours, and the text that results is read again.  Most often the literal and a neighbour that
is part of an operand make no word together, and the text is refused.  But where both are parts of
words, they are read as one, so that `2(3)` is 23 and `x(1)` looks up `x1`; and behind anything, the
sign of a negative literal is read as an operation or as that of a power of ten.  A quote mark
makes no word together with anything, which is what keeps all other texts out.

## Main definitions

* `IsExpressionFault`: the faults that the evaluation of a text raises
* `Touches`: a parenthesis directly next to an operand or another group
* `Fused`: a group whose literal is read together with what the group touches

## Main statements

* `fused_of_touches`: what has a value although a group touches an operand was fused
* `evaluateExpression_touching`: such texts raise faults otherwise
-/

namespace BusinessRules.Expression

open Literal (isQuote)

variable {c d : Char} {cs : List Char} {p : Precision} {names : Names}

/-! ## Faults of expressions -/

/-- The classes of the faults of expressions. -/
def expressionKinds : List FaultKind :=
  [.expressionParse, .unresolvedReference, .divideByZero, .invalidExpression]

/-- The faults that the evaluation of a text raises: those of expressions, and those of the
arithmetic in them. -/
inductive IsExpressionFault : Fault → Prop
  | expression {f : Fault} (h : f.kind ∈ expressionKinds) : IsExpressionFault f
  | arithmetic (f : ArithmeticFault) : IsExpressionFault (.arithmetic f)

namespace IsExpressionFault

variable {f : Fault} {v w : Value}

theorem ofArithmetic {x : Except ArithmeticFault Decimal} (h : ofArithmetic x = .error f) :
    IsExpressionFault f := by
  cases x with
  | error g =>
    cases h
    exact .arithmetic g
  | ok n => cases h

theorem operate {op : Char} (h : operate p op v w = .error f) : IsExpressionFault f := by
  rw [Expression.operate] at h
  split at h
  · exact ofArithmetic h
  · split at h
    · exact ofArithmetic h
    · split at h
      · exact ofArithmetic h
      · split at h
        · cases h
          exact .arithmetic _
        · cases h
          exact .expression (by decide)
        · exact ofArithmetic h

theorem applySign {sign : Char} (h : applySign p sign v = .error f) : IsExpressionFault f := by
  rw [Expression.applySign] at h
  split at h
  · exact ofArithmetic h
  · cases h

theorem read? (h : Literal.read? cs = .error f) : IsExpressionFault f := by
  rw [Literal.read?] at h
  split at h
  · split at h
    · cases h
    · cases h
      exact .arithmetic _
  · split at h <;> cases h

theorem resolve (h : resolve names cs = .error f) :
    IsExpressionFault f ∨ ∃ name, names name = .error f := by
  rw [Expression.resolve] at h
  split at h
  · next g hg =>
    cases h
    exact .inr ⟨_, hg⟩
  · cases h
  · split at h
    · cases h
      exact .inl (.expression (show FaultKind.unresolvedReference ∈ expressionKinds by decide))
    · cases h
      exact .inl (.expression (show FaultKind.invalidExpression ∈ expressionKinds by decide))

theorem evaluateFlat (h : evaluateFlat p names cs = .error f) :
    IsExpressionFault f ∨ ∃ name, names name = .error f := by
  fun_induction Expression.evaluateFlat p names cs generalizing f with
  | case1 cs hparen =>
    cases h
    exact .inl (.expression (show FaultKind.expressionParse ∈ expressionKinds by decide))
  | case2 cs hparen op i hop g hleft ih =>
    cases h
    exact ih hleft
  | case3 cs hparen op i hop left hleft g hright ihleft ihright =>
    cases h
    exact ihright hright
  | case4 cs hparen op i hop left hleft right hright ihleft ihright => exact .inl (operate h)
  | case5 cs hparen hop hempty =>
    cases h
    exact .inl (.expression (by decide))
  | case6 cs hparen hop hempty g hread =>
    cases h
    exact .inl (read? hread)
  | case7 cs hparen hop hempty w hread => cases h
  | case8 cs hparen hop hempty hread sign rest hsign g hrest ih =>
    cases h
    exact ih hrest
  | case9 cs hparen hop hempty hread sign rest hsign w hrest ih => exact .inl (applySign h)
  | case10 cs hparen hop hempty hread hsign => exact resolve h

/-- **Nothing else is raised**, but for what names raise. -/
theorem evaluateGroups (h : evaluateGroups p names cs = .error f) :
    IsExpressionFault f ∨ ∃ name, names name = .error f := by
  fun_induction Expression.evaluateGroups p names cs generalizing f with
  | case1 cs hgroup hlast =>
    cases h
    exact .inl (.expression (show FaultKind.expressionParse ∈ expressionKinds by decide))
  | case2 cs hgroup before inside after hlast g hinside =>
    cases h
    exact evaluateFlat hinside
  | case3 cs hgroup before inside after hlast w hinside g hliteral =>
    cases h
    exact .inl (.expression (show FaultKind.invalidExpression ∈ expressionKinds by decide))
  | case4 cs hgroup before inside after hlast w hinside literal hliteral ih => exact ih h
  | case5 cs hgroup => exact evaluateFlat h

end IsExpressionFault

/-! ## Groups that touch an operand -/

/-- An opening parenthesis directly behind an operand or a group, or a closing one directly in front
of an operand. -/
def Touches (c d : Char) : Prop :=
  d = '(' ∧ (isOperandChar c = true ∨ c = ')') ∨ c = ')' ∧ isOperandChar d = true

/-- Of two characters one of which is a parenthesis, the other one is read together with the literal
of the group: a minus sign stands directly behind it, or it makes a word together with the literal.
Of two groups next to each other, the second one counts as its literal for the first one. -/
inductive Fused (ps : List Paste) (front : List Char) : Char → Char → Prop
  | sign {x : Paste} {c : Char} (mem : x ∈ ps)
    (place : x.before = Text.trimStart (front ++ [c])) (head : x.literal.head? = some '-') :
    Fused ps front c '('
  | opening {x : Paste} {c a : Char} (mem : x ∈ ps)
    (place : x.before = Text.trimStart (front ++ [c])) (head : x.literal.head? = some a)
    (left : isWordPart c = true) (right : isWordPart a = true) : Fused ps front c '('
  | closing {x : Paste} {a d : Char} (mem : x ∈ ps) (place : x.after.head? = some d)
    (last : x.literal.getLast? = some a) (left : isWordPart a = true)
    (right : isWordPart d = true) : Fused ps front ')' d
  | groups {x : Paste} {a : Char} (mem : x ∈ ps)
    (place : x.before = Text.trimStart (front ++ [')'])) (head : x.literal.head? = some a)
    (fused : Fused ps front ')' a) : Fused ps front ')' '('

instance (c d : Char) : Decidable (Touches c d) := inferInstanceAs (Decidable (_ ∨ _))

theorem isBlank_of_touches (h : Touches c d) : Text.isBlank c = false := by
  rcases h with ⟨-, hc | rfl⟩ | ⟨rfl, -⟩
  · exact isBlank_of_isOperandChar hc
  · decide
  · decide

/-- A group that opens directly behind an operand or another group fuses by a minus sign or into
a word. -/
theorem exists_fused_opening (hnames : NamesIdentifiers names) {front back : List Char}
    (hclosed : quoteAfter none (front ++ [c]) = none) (hc : isOperandChar c = true ∨ c = ')')
    {v : Value} (h : evaluateGroups p names (Text.trim (front ++ c :: '(' :: back)) = .ok v) :
    ∃ x ∈ pastes p names (Text.trim (front ++ c :: '(' :: back)),
      x.before = Text.trimStart (front ++ [c]) ∧ ∃ a, x.literal.head? = some a ∧
        (a = '-' ∨ isQuote c = false ∧ isWordPart a = true) := by
  have hfront : Text.trimStart (front ++ [c]) = Text.trimStart front ++ [c] :=
    Text.trimStart_around (isBlank_of_touches (.inl ⟨rfl, hc⟩)) front []
  have htrim : Text.trim (front ++ c :: '(' :: back) =
      Text.trimStart (front ++ [c]) ++ '(' :: Text.trimEnd back := by
    rw [show front ++ c :: '(' :: back = front ++ [c] ++ '(' :: back by simp,
      Text.trim_around (by decide)]
  have hstart : Text.trimStart (Text.trimStart (front ++ [c])) = Text.trimStart (front ++ [c]) :=
    List.dropWhile_idempotent _ _
  rw [htrim] at h ⊢
  obtain ⟨x, hx, hbefore⟩ := exists_paste_opening hstart (quoteAfter_trimStart hclosed) h
  obtain ⟨hopened, ⟨w, hformat⟩, -⟩ := exists_of_mem_pastes hx
  obtain ⟨⟨a, ha, hoperand⟩, -⟩ := ends_of_format hformat
  refine ⟨x, hx, hbefore, a, ha, hoperand.imp_right fun hoperand => ?_⟩
  have hlast : x.before.getLast? = some c := by rw [hbefore, hfront, List.getLast?_concat]
  have hadjacent : Adjacent x.text c a := (Adjacent.seam hopened hlast ha).append_right x.after
  have hfused := not_isQuote_of_not_clash hc hoperand
    (quiet_of_mem_pastes hnames h hx c a hadjacent)
  exact ⟨hfused.1, isWordPart_of_isOperandChar hoperand hfused.2⟩

/-- A group that closes directly in front of an operand makes a word together with it. -/
theorem fused_closing (hnames : NamesIdentifiers names) (place : List Char)
    {front back : List Char} (hfront : quoteAfter none front = none)
    (hd : isOperandChar d = true) {v : Value}
    (h : evaluateGroups p names (Text.trim (front ++ ')' :: d :: back)) = .ok v) :
    Fused (pastes p names (Text.trim (front ++ ')' :: d :: back))) place ')' d := by
  have hblank := isBlank_of_isOperandChar hd
  have hopen : d ≠ '(' := by
    rintro rfl
    exact absurd hd (by decide)
  have htrim : Text.trim (front ++ ')' :: d :: back) =
      Text.trimStart front ++ ')' :: d :: Text.trimEnd back := by
    rw [Text.trim_around (by decide)]
    exact congrArg (Text.trimStart front ++ ')' :: ·) (Text.trimEnd_around hblank [] back)
  rw [htrim] at h ⊢
  obtain ⟨x, hx, hafter⟩ := exists_paste_closing hblank hopen (quoteAfter_trimStart hfront) h
  obtain ⟨hopened, ⟨w, hformat⟩, -⟩ := exists_of_mem_pastes hx
  obtain ⟨-, a, ha, hoperand⟩ := ends_of_format hformat
  have hlast : (x.before ++ x.literal).getLast? = some a := by
    rw [List.getLast?_append, ha, Option.some_or]
  have hadjacent : Adjacent x.text a d :=
    .seam (quoteAfter_append_closed hopened (shows_literal hformat).closed) hlast hafter
  have hfused := not_isQuote_of_not_clash (.inl hoperand) hd
    (quiet_of_mem_pastes hnames h hx a d hadjacent)
  exact .closing hx hafter ha (isWordPart_of_isOperandChar hoperand hfused.1)
    (isWordPart_of_isOperandChar hd hfused.2)

theorem Fused.mono {ps qs : List Paste} (hsubset : ps ⊆ qs) {front : List Char}
    (h : Fused ps front c d) : Fused qs front c d := by
  induction h with
  | sign mem place head => exact .sign (hsubset mem) place head
  | opening mem place head left right => exact .opening (hsubset mem) place head left right
  | closing mem place last left right => exact .closing (hsubset mem) place last left right
  | groups mem place head _ ih => exact .groups (hsubset mem) place head ih

/-- **What has a value although a group touches an operand** or another group was fused. -/
theorem fused_of_touches (hnames : NamesIdentifiers names) {front back : List Char}
    (hclosed : quoteAfter none (front ++ [c]) = none) (htouch : Touches c d) {v : Value}
    (h : evaluateGroups p names (Text.trim (front ++ c :: d :: back)) = .ok v) :
    Fused (pastes p names (Text.trim (front ++ c :: d :: back))) front c d := by
  rcases htouch with ⟨rfl, hc⟩ | ⟨rfl, hd⟩
  · obtain ⟨x, hx, hplace, a, ha, hjoin⟩ := exists_fused_opening hnames hclosed hc h
    rcases hjoin with rfl | ⟨hquote, ha'⟩
    · exact .sign hx hplace ha
    rcases hc with hc | rfl
    · exact .opening hx hplace ha (isWordPart_of_isOperandChar hc hquote) ha'
    -- The group in front is followed by the literal, in a text that has the same value.
    obtain ⟨-, -, heval⟩ := exists_of_mem_pastes hx
    obtain ⟨rest, hrest⟩ := List.head?_eq_some_iff.1 ha
    have htext : x.text = Text.trimStart front ++ ')' :: a :: (rest ++ x.after) := by
      have hfront : Text.trimStart (front ++ [')']) = Text.trimStart front ++ [')'] :=
        Text.trimStart_around (by decide) front []
      rw [Paste.text, hplace, hfront, hrest]
      simp
    rw [heval, htext] at h
    have hfront := closed_of_concat hclosed (by decide) (by decide)
    have hfused := fused_closing hnames front (quoteAfter_trimStart hfront)
      (isOperandChar_of_isWordPart ha') h
    rw [← htext] at hfused
    exact .groups hx hplace ha (hfused.mono (pastes_subset hx))
  · exact fused_closing hnames front (closed_of_concat hclosed (by decide) (by decide)) hd h

/-- The value of an expression without equals signs is that of its trimmed text. -/
theorem evaluateExpression_groups {env : Environment} (henv : env.precision = .ok p)
    (context : Context) {text : String} (hblank : Text.isBlankText text = false)
    (hequals : '=' ∉ mask text.toList) :
    (evaluateExpression env context text).map Prod.fst =
      evaluateGroups p context.values (Text.trim text.toList) := by
  rw [evaluateExpression_compute env context hblank hequals, henv, Except.bind,
    evaluateArithmetic, Text.trim_trim]
  cases evaluateGroups p context.values (Text.trim text.toList) <;> rfl

/-- Facts that bind the same data to the identifiers of a masked text. -/
theorem agrees_of_facts {f f' : Facts} {masked : List Char}
    (hkeys : ∀ name d, f.get? name = some d → isIdentifier name.toList = true)
    (hkeys' : ∀ name d, f'.get? name = some d → isIdentifier name.toList = true)
    (h : ∀ t ∈ identifiers masked, f.get? (String.ofList t) = f'.get? (String.ofList t)) :
    Agrees masked (Context.facts f).values (Context.facts f').values := by
  intro t _ hshown
  have hsame : f.get? (String.ofList t) = f'.get? (String.ofList t) := by
    by_cases hname : isIdentifier t = true
    · exact h t (hshown hname)
    · have hnone : ∀ g : Facts, (∀ name d, g.get? name = some d →
          isIdentifier name.toList = true) → g.get? (String.ofList t) = none := by
        intro g hg
        by_contra hsome
        obtain ⟨d, hd⟩ := Option.ne_none_iff_exists'.1 hsome
        have hname' := hg _ d hd
        rw [String.toList_ofList] at hname'
        exact hname hname'
      rw [hnone f hkeys, hnone f' hkeys']
  rw [Context.values, Context.values, Context.lookup, Context.lookup, hsame]

/-- **A group that touches an operand** or another group.  In facts that bind identifiers only, the
evaluation of such a text raises a fault of expressions or of their arithmetic, or that of a name
which is bound to something without a value, unless the literal of the group fuses with what the
group touches.  And if no literal makes a name together with its neighbours, and numbers are finite,
then no name is looked up that the text does not show as an identifier: facts that bind these alike
give the same outcome. -/
theorem evaluateExpression_touching {env : Environment} (henv : env.precision = .ok p) {f : Facts}
    (hkeys : ∀ name d, f.get? name = some d → isIdentifier name.toList = true) {text : String}
    {front back : List Char} (htext : text.toList = front ++ c :: d :: back)
    (hclosed : quoteAfter none (front ++ [c]) = none) (htouch : Touches c d)
    (hequals : '=' ∉ mask text.toList) :
    ((∃ g, evaluateExpression env (.facts f) text = .error g ∧
        (IsExpressionFault g ∨ ∃ name, (Context.facts f).values name = .error g)) ∨
      Fused (pastes p (Context.facts f).values (Text.trim text.toList)) front c d) ∧
    (NamesFinite (Context.facts f).values →
      (∀ x ∈ pastes p (Context.facts f).values (Text.trim text.toList), x.Separate) →
      ∀ f' : Facts, (∀ name d, f'.get? name = some d → isIdentifier name.toList = true) →
        (∀ t ∈ identifiers (mask text.toList),
          f.get? (String.ofList t) = f'.get? (String.ofList t)) →
        (evaluateExpression env (.facts f) text).map Prod.fst =
          (evaluateExpression env (.facts f') text).map Prod.fst) := by
  have hblank : Text.isBlankText text = false := by
    rw [Text.isBlankText, List.all_eq_false]
    exact ⟨c, by simp [htext], by simp [isBlank_of_touches htouch]⟩
  have hvalue := fun f : Facts => evaluateExpression_groups henv (.facts f) hblank hequals
  constructor
  · rcases hgroups : evaluateGroups p (Context.facts f).values (Text.trim text.toList) with g | v
    · left
      have hfault := IsExpressionFault.evaluateGroups hgroups
      have houtcome := hvalue f
      rw [hgroups] at houtcome
      rcases hresult : evaluateExpression env (.facts f) text with g' | r
      · rw [hresult] at houtcome
        cases houtcome
        exact ⟨g, rfl, hfault⟩
      · rw [hresult] at houtcome
        cases houtcome
    · right
      rw [htext] at hgroups ⊢
      exact fused_of_touches (namesIdentifiers_of_facts hkeys) hclosed htouch hgroups
  · intro hfinite hseparate f' hkeys' hsame
    rw [hvalue f, hvalue f']
    exact evaluateGroups_separate hfinite hseparate
      ((within_trim _).agrees (agrees_of_facts hkeys hkeys' hsame))

/-- A number, and a text under another name. -/
def touchedFacts : Facts := ⟨[("x", .int 5), ("y", .text "a")]⟩

theorem isIdentifier_of_touchedFacts (name : String) (d : Datum)
    (h : touchedFacts.get? name = some d) : isIdentifier name.toList = true := by
  simp only [touchedFacts, Facts.get?, List.lookup] at h
  split at h
  · next hname =>
    rw [eq_of_beq hname]
    decide
  · split at h
    · next hname =>
      rw [eq_of_beq hname]
      decide
    · cases h

theorem values_touchedFacts (name : String) (g : Fault) :
    (Context.facts touchedFacts).values name ≠ .error g := by
  simp only [touchedFacts, Context.values, Context.lookup, Facts.get?, List.lookup]
  split
  · simp
  · next d hd =>
    split at hd
    · cases hd
      simp [Datum.toValue, Except.map]
    · split at hd <;> cases hd
      simp [Datum.toValue, Except.map]
  · next hd => cases hd

/-- The literal of a text does not fuse with the name in front of its group.  So nothing is
returned, and other names that are bound do not matter. -/
theorem evaluateExpression_touchingSample :
    (∃ g, evaluateExpression [] (.facts touchedFacts) "1 - x((y))" = .error g ∧
        IsExpressionFault g) ∧
      ∀ f' : Facts, (∀ name d, f'.get? name = some d → isIdentifier name.toList = true) →
        (∀ t ∈ identifiers (mask "1 - x((y))".toList),
          touchedFacts.get? (String.ofList t) = f'.get? (String.ofList t)) →
        ∃ g, evaluateExpression [] (.facts f') "1 - x((y))" = .error g := by
  have henv : Environment.precision [] = .ok ⟨28, by decide, by decide⟩ := rfl
  have htext : "1 - x((y))".toList = "1 - ".toList ++ 'x' :: '(' :: "(y))".toList := rfl
  obtain ⟨hraises, hnames⟩ := evaluateExpression_touching henv isIdentifier_of_touchedFacts htext
    (by decide) (by decide) (by decide +kernel)
  have hpastes : (∀ x ∈ pastes ⟨28, by decide, by decide⟩ (Context.facts touchedFacts).values
      (Text.trim "1 - x((y))".toList), x.literal.head? = some '\'') ∧
      ∀ x ∈ pastes ⟨28, by decide, by decide⟩ (Context.facts touchedFacts).values
        (Text.trim "1 - x((y))".toList), x.Separate := by
    decide +kernel
  obtain ⟨g, hg, hfault⟩ := hraises.resolve_right fun hfused => by
    cases hfused with
    | sign mem place head =>
      rw [hpastes.1 _ mem] at head
      cases head
    | opening mem place head left right =>
      rw [hpastes.1 _ mem] at head
      cases head
      cases right
  have hfinite : NamesFinite (Context.facts touchedFacts).values := by
    intro name x hx
    obtain ⟨d, hd, hvalue⟩ := Context.exists_of_values hx
    simp only [touchedFacts, Context.lookup, Facts.get?, List.lookup] at hd
    split at hd
    · cases hd
      cases hvalue
      exact Decimal.isFinite_finite ..
    · split at hd <;> cases hd
      cases hvalue
  refine ⟨⟨g, hg, hfault.resolve_right ?_⟩, fun f' hkeys' hsame => ?_⟩
  · rintro ⟨name, hname⟩
    exact values_touchedFacts name g hname
  have houtcome := hnames hfinite hpastes.2 f' hkeys' hsame
  rw [hg] at houtcome
  rcases hresult : evaluateExpression [] (.facts f') "1 - x((y))" with g' | r
  · exact ⟨g', rfl⟩
  · rw [hresult] at houtcome
    cases houtcome

/-- A number is read as one numeral with digits that its group touches, and as one name with a name
in front of its group.  The sign of a negative number is read as an operation. -/
theorem touching_fuses :
    number? ((evaluateExpression [] (.facts ⟨[]⟩) "2(3)").map Prod.fst) =
        some (.finite false 23 0) ∧
      number? ((evaluateExpression [] (.facts ⟨[("x1", .int 7)]⟩) "x(1)").map Prod.fst) =
        some (.finite false 7 0) ∧
      number? ((evaluateExpression [] (.facts ⟨[]⟩) "2(-3)").map Prod.fst) =
        some (.finite true 1 0) := by
  refine ⟨?_, ?_, ?_⟩ <;> decide +kernel

end BusinessRules.Expression

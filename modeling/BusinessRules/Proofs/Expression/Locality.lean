import BusinessRules.Proofs.Expression.Pastes
import BusinessRules.Proofs.Expression.Range

/-!
# Names on which values depend

The value of a text depends on no names but the identifiers that the text shows, if its groups
touch nothing and numbers are finite.  So it stays the same when other identifiers are bound.

## Main definitions

* `Agrees`: names that stand for the same as far as a masked text can tell
* `namesMeet`, `Paste.Separate`: a literal that makes no name together with its neighbours

## Main statements

* `finite_of_evaluateFlat`: finite numbers give finite numbers
* `evaluateGroups_separate`: what the value of a text depends on, if literals are separate
* `evaluateArithmetic_congr`, `evaluateBoolean_congr`: what values and truth values depend on
-/

namespace BusinessRules.Expression

variable {p : Precision} {names names' : Names}

/-! ## Finite values -/

/-- **Finite numbers give finite numbers.** -/
theorem finite_of_evaluateFlat (hnames : NamesFinite names) {cs : List Char} {v : Value}
    (h : evaluateFlat p names cs = .ok v) : ∀ x, v = .number x → x.IsFinite :=
  isRange_isFinite.evaluateFlat hnames h

theorem finite_of_evaluateArithmetic (hnames : NamesFinite names) {cs : List Char} {v : Value}
    (h : evaluateArithmetic p names cs = .ok v) : ∀ x, v = .number x → x.IsFinite :=
  isRange_isFinite.evaluateArithmetic hnames h

/-! ## Values of arithmetic texts -/

/-- Names that stand for the same, except for identifiers that a masked text does not show. -/
def Agrees (masked : List Char) (names names' : Names) : Prop :=
  ∀ t, Literal.word? t = none → (isIdentifier t = true → t ∈ identifiers masked) →
    names (String.ofList t) = names' (String.ofList t)

theorem Agrees.of_subset {inner outer : List Char} (h : Agrees outer names names')
    (hsubset : identifiers inner ⊆ identifiers outer) : Agrees inner names names' :=
  fun t hword ht => h t hword fun hname => hsubset (ht hname)

theorem Within.agrees {inner outer : List Char} (h : Within inner outer)
    (hagrees : Agrees outer names names') : Agrees inner names names' :=
  hagrees.of_subset h.subset

/-- A name that is looked up is not a literal, and is shown if it is an identifier. -/
theorem resolve_congr {cs : List Char} (hread : Literal.read? cs = .ok none)
    (h : Agrees (mask cs) names names') : resolve names cs = resolve names' cs := by
  have hword : Literal.word? cs = none := by
    by_contra hsome
    obtain ⟨v, hv⟩ := Option.ne_none_iff_exists'.1 hsome
    have htrim := (Leaf.name cs (isIdentifier_of_word? hv)).tight.trim_self
    rw [Literal.read?, show Text.trim cs = cs from htrim] at hread
    split at hread
    · split at hread <;> cases hread
    · split at hread
      · cases hread
      · exact hsome (Except.ok.inj hread)
  have hshown : isIdentifier cs = true → cs ∈ identifiers (mask cs) := fun hname =>
    (mask_name (isNameChar_of_isIdentifier hname)).1.symm ▸ mem_identifiers_self hname hword
  rw [resolve, resolve, h cs hword hshown]

/-- **The value of a text without groups depends on the identifiers that it shows.** -/
theorem evaluateFlat_congr {cs : List Char} (h : Agrees (mask cs) names names') :
    evaluateFlat p names cs = evaluateFlat p names' cs := by
  fun_induction evaluateFlat p names cs with
  | case1 cs hparen => rw [evaluateFlat, if_pos hparen]
  | case2 cs hparen op i hop f hleft ih =>
    have hl := ((within_trim _).trans (within_operation hop).1).agrees h
    rw [evaluateFlat_operation (by simpa using hparen) hop, ← ih hl, hleft]
  | case3 cs hparen op i hop left hleft f hright ihleft ihright =>
    have hl := ((within_trim _).trans (within_operation hop).1).agrees h
    have hr := ((within_trim _).trans (within_operation hop).2).agrees h
    simp only [evaluateFlat_operation (by simpa using hparen) hop, ← ihleft hl, hleft, ← ihright hr,
      hright]
  | case4 cs hparen op i hop left hleft right hright ihleft ihright =>
    have hl := ((within_trim _).trans (within_operation hop).1).agrees h
    have hr := ((within_trim _).trans (within_operation hop).2).agrees h
    simp only [evaluateFlat_operation (by simpa using hparen) hop, ← ihleft hl, hleft, ← ihright hr,
      hright]
  | case5 cs hparen hop hempty =>
    rw [List.isEmpty_iff] at hempty
    subst hempty
    rw [evaluateFlat]
    rfl
  | case6 cs hparen hop hempty f hread =>
    rw [evaluateFlat_operand (by simpa using hparen) hop (by simpa using hempty), hread]
  | case7 cs hparen hop hempty w hread =>
    rw [evaluateFlat_operand (by simpa using hparen) hop (by simpa using hempty), hread]
  | case8 cs hparen hop hempty hread sign rest hsign f hrest ih =>
    have hr := ((within_trim _).trans (within_signed hsign)).agrees h
    rw [evaluateFlat_operand (by simpa using hparen) hop (by simpa using hempty), hread]
    simp only [hsign, ← ih hr, hrest]
    rfl
  | case9 cs hparen hop hempty hread sign rest hsign w hrest ih =>
    have hr := ((within_trim _).trans (within_signed hsign)).agrees h
    rw [evaluateFlat_operand (by simpa using hparen) hop (by simpa using hempty), hread]
    simp only [hsign, ← ih hr, hrest]
    rfl
  | case10 cs hparen hop hempty hread hsign =>
    rw [evaluateFlat_operand (by simpa using hparen) hop (by simpa using hempty), hread]
    simp only [hsign]
    exact resolve_congr hread h

theorem evaluateFlat_inside_congr {cs before inside after : List Char}
    (hlast : lastGroup? cs = some (before, inside, after)) (h : Agrees (mask cs) names names') :
    evaluateFlat p names (Text.trim inside) = evaluateFlat p names' (Text.trim inside) :=
  evaluateFlat_congr (((within_trim _).trans (within_group hlast)).agrees h)

/-! ## Literals that make no names -/

/-- Whether a text ends with a character of a name and the next one begins with such a
character. -/
def namesMeet (as bs : List Char) : Bool := as.getLast?.any isNameChar && bs.head?.any isNameChar

/-- A literal that makes no name together with what stands next to it. -/
structure Paste.Separate (x : Paste) : Prop where
  left : namesMeet x.before x.literal = false
  right : namesMeet x.literal x.after = false

instance (x : Paste) : Decidable x.Separate :=
  decidable_of_iff _ ⟨fun h => ⟨h.1, h.2⟩, fun h => And.intro h.left h.right⟩

/-- Two texts of which no names meet show the identifiers that each of them shows. -/
theorem identifiers_apart {as bs : List Char} (hclosed : quoteAfter none as = none)
    (h : namesMeet as bs = false) :
    identifiers (mask (as ++ bs)) = identifiers (mask as) ++ identifiers (mask bs) := by
  have hnone : ∀ {o : Option Char}, o.any isNameChar = false → ∀ c ∈ o, isNameChar c = false := by
    rintro _ ho c rfl
    exact ho
  rw [mask_append hclosed]
  refine identifiers_append ?_
  rw [getLast?_mask hclosed, head?_mask]
  rw [namesMeet, Bool.and_eq_false_iff] at h
  exact h.imp hnone hnone

/-- **A literal that is separate shows no identifier that was not shown before.** -/
theorem identifiers_paste {cs before inside after literal : List Char} {v : Value}
    (hgroup : lastGroup? cs = some (before, inside, after))
    (hliteral : Literal.format v = .ok literal) (hfinite : ∀ x, v = .number x → x.IsFinite)
    (h : Paste.Separate ⟨before, literal, after⟩) :
    identifiers (mask (before ++ literal ++ after)) ⊆ identifiers (mask cs) := by
  have hbefore := (lastGroup?_eq_some hgroup).2.1
  have hshows := shows_literal hliteral
  have hright : namesMeet (before ++ literal) after = false := by
    rw [namesMeet, List.getLast?_append_of_ne_nil _ (literal_ne_nil hliteral hfinite)]
    exact h.right
  rw [identifiers_apart (quoteAfter_append_closed hbefore hshows.closed) hright,
    identifiers_apart hbefore h.left, identifiers_literal hliteral hfinite, List.append_nil,
    (mask_group hgroup).1, List.append_assoc, List.cons_append, identifiers_cut (by decide),
    identifiers_cut (by decide)]
  intro t ht
  rw [List.mem_append] at ht
  rw [List.mem_append, List.mem_append]
  exact ht.imp_right .inr

/-- **The value of a text depends on the identifiers that it shows**, if the literals of its
evaluation are separate. -/
theorem evaluateGroups_separate (hnames : NamesFinite names) {cs : List Char}
    (hcs : ∀ x ∈ pastes p names cs, x.Separate) (h : Agrees (mask cs) names names') :
    evaluateGroups p names cs = evaluateGroups p names' cs := by
  fun_induction evaluateGroups p names cs with
  | case1 cs hgroup hlast =>
    rw [evaluateGroups, if_pos hgroup]
    split
    · rfl
    · next hlast' =>
      rw [hlast] at hlast'
      cases hlast'
  | case2 cs hgroup before inside after hlast f hinside =>
    simp only [evaluateGroups_group hgroup hlast, ← evaluateFlat_inside_congr hlast h, hinside]
  | case3 cs hgroup before inside after hlast w hinside f hliteral =>
    simp only [evaluateGroups_group hgroup hlast, ← evaluateFlat_inside_congr hlast h, hinside,
      hliteral]
  | case4 cs hgroup before inside after hlast w hinside literal hliteral ih =>
    rw [pastes_group hlast hinside hliteral, List.forall_mem_cons] at hcs
    have hfinite := finite_of_evaluateFlat hnames hinside
    have hsubset := identifiers_paste hlast hliteral hfinite hcs.1
    have hrest := ih hcs.2 ((within_trim _).agrees (h.of_subset hsubset))
    simp only [evaluateGroups_group hgroup hlast, ← evaluateFlat_inside_congr hlast h, hinside,
      hliteral, hrest]
  | case5 cs hgroup => rw [evaluateGroups, if_neg hgroup, evaluateFlat_congr h]

/-- **Literals are separate if groups touch nothing.** -/
theorem separate_of_apart (hnames : NamesFinite names) {cs : List Char} (hcs : Apart (mask cs)) :
    ∀ x ∈ pastes p names cs, x.Separate := by
  have hany : ∀ {o : Option Char}, (∀ c ∈ o, isNameChar c = false) → o.any isNameChar = false := by
    rintro (_ | c) ho
    · rfl
    · exact ho c rfl
  fun_induction pastes p names cs with
  | case1 cs hgroup => exact List.forall_mem_nil _
  | case2 cs before inside after hgroup f hinside => exact List.forall_mem_nil _
  | case3 cs before inside after hgroup v hinside f hliteral => exact List.forall_mem_nil _
  | case4 cs before inside after hgroup v hinside literal hliteral ih =>
    obtain ⟨hclear, hapart⟩ :=
      splice_group hgroup hcs hliteral (finite_of_evaluateFlat hnames hinside)
    have hleft := hclear.left
    have hright := hclear.right
    rw [getLast?_mask (lastGroup?_eq_some hgroup).2.1] at hleft
    rw [head?_mask] at hright
    refine List.forall_mem_cons.2 ⟨⟨?_, ?_⟩, ih ((within_trim _).apart hapart)⟩
    · rw [namesMeet, hany hleft, Bool.false_and]
    · rw [namesMeet, hany hright, Bool.and_false]

/-- **The value of a text depends on the identifiers that it shows**, if its groups touch nothing:
no literal of a finite number makes another identifier. -/
theorem evaluateGroups_congr (hnames : NamesFinite names) {cs : List Char}
    (hcs : Apart (mask cs)) (h : Agrees (mask cs) names names') :
    evaluateGroups p names cs = evaluateGroups p names' cs :=
  evaluateGroups_separate hnames (separate_of_apart hnames hcs) h

theorem evaluateArithmetic_congr (hnames : NamesFinite names) {cs : List Char}
    (hcs : Apart (mask cs)) (h : Agrees (mask cs) names names') :
    evaluateArithmetic p names cs = evaluateArithmetic p names' cs :=
  evaluateGroups_congr hnames ((within_trim cs).apart hcs) ((within_trim cs).agrees h)

/-! ## Truth values of conditions -/

theorem evaluateComparison_congr (hnames : NamesFinite names) {cs : List Char}
    (hcs : Apart (mask cs)) (h : Agrees (mask cs) names names') :
    evaluateComparison p names cs = evaluateComparison p names' cs := by
  rw [evaluateComparison, evaluateComparison]
  split
  · next op i hop =>
    obtain ⟨hleft, hright⟩ := within_comparison hop
    rw [evaluateArithmetic_congr hnames (hleft.apart hcs) (hleft.agrees h),
      evaluateArithmetic_congr hnames (hright.apart hcs) (hright.agrees h)]
  · rw [evaluateArithmetic_congr hnames hcs h]

/-- **The truth of a condition depends on the identifiers that it shows**, if its groups touch
nothing. -/
theorem evaluateBoolean_congr (hnames : NamesFinite names) {cs : List Char}
    (hcs : Apart (mask cs)) (h : Agrees (mask cs) names names') :
    evaluateBoolean p names cs = evaluateBoolean p names' cs := by
  rw [evaluateBoolean, evaluateBoolean, allOf_eq_testWhile, allOf_eq_testWhile]
  refine testWhile_congr fun before part after hparts _ => ?_
  have hpart : part ∈ parts .and (Text.trim cs) :=
    hparts ▸ List.mem_append_right before List.mem_cons_self
  rw [anyOf_eq_testWhile, anyOf_eq_testWhile]
  refine testWhile_congr fun before' atom after' hatoms _ => ?_
  have hatom : atom ∈ parts .or part := hatoms ▸ List.mem_append_right before' List.mem_cons_self
  have hwithin : Within (mask atom) (mask cs) :=
    (within_of_mem_parts hatom).trans ((within_of_mem_parts hpart).trans (within_trim cs))
  exact evaluateComparison_congr hnames (hwithin.apart hcs) (hwithin.agrees h)

theorem evaluateCondition_congr (env : Environment) {context context' : Context} {text : String}
    (hnames : NamesFinite context.values) (hcs : Apart (mask text.toList))
    (h : Agrees (mask text.toList) context.values context'.values) :
    evaluateCondition env context text = evaluateCondition env context' text := by
  rw [evaluateCondition, evaluateCondition]
  split
  · rfl
  · split
    · rfl
    · exact evaluateBoolean_congr hnames hcs h

/-! ## Expressions -/

/-- The text that a statement evaluates. -/
def Statement.source : Statement → List Char
  | compute text => text
  | assign _ right => right

/-- The text that an expression evaluates, a compound assignment written out. -/
def source (text : String) : Outcome (List Char) :=
  (Statement.ofText text (Text.trim text.toList)).map Statement.source

/-- The name that an expression binds. -/
def target? (text : String) : Option String :=
  match Statement.ofText text (Text.trim text.toList) with
  | .ok (.assign target _) => some (String.ofList target)
  | _ => none

/-- The value that an expression computes. -/
def valueOf (env : Environment) (names : Names) (text : String) : Outcome Value :=
  if Text.isBlankText text then .ok .null
  else
    match env.precision with
    | .error f => .error f
    | .ok p => (source text).bind (evaluateArithmetic p names)

/-- The written-out form of an assignment shows no identifiers but those of its sides. -/
theorem identifiers_expand {target right name text : List Char}
    (h : Statement.expand target right = (name, text)) (hname : isIdentifier name = true) :
    identifiers (mask text) ⊆ identifiers (mask target) ++ identifiers (mask right) := by
  rw [Statement.expand] at h
  split at h
  · next op hop =>
    split at h
    · next hoperator =>
      cases h
      -- The name stands between blanks in front of the operator.
      obtain ⟨bs, bs', hbs, hbs', htrim⟩ := Text.exists_trim target.dropLast
      have htarget : target = bs ++ (Text.trim target.dropLast) ++ (bs' ++ [op]) := by
        conv => lhs; rw [← List.dropLast_append_getLast? op hop, htrim]
        simp
      have hop' := isNameChar_of_operator hoperator
      have hmask : mask target = target := (mask_of_no_quote fun c hc => by
        rw [htarget] at hc
        simp only [List.mem_append, List.mem_singleton] at hc
        rcases hc with (hc | hc) | hc | rfl
        · exact isQuote_of_isBlank (hbs c hc)
        · exact isQuote_of_isWordPart (by rw [isWordPart, isNameChar_of_isIdentifier hname c hc,
            Bool.true_or])
        · exact isQuote_of_isBlank (hbs' c hc)
        · exact isQuote_of_operator hoperator).1
      have hwithin : Within (Text.trim target.dropLast) (mask target) := by
        refine ⟨bs, bs' ++ [op], hmask.trans htarget, .of_forall fun c hc => ?_⟩
        simp only [List.mem_append, List.mem_singleton] at hc
        rcases hc with hc | hc | rfl
        · exact isNameChar_of_isBlank (hbs c hc)
        · exact isNameChar_of_isBlank (hbs' c hc)
        · exact hop'
      obtain ⟨c, hc, hmask⟩ := mask_expanded hname hoperator right
      have hc' : isNameChar c = false := by
        rcases hc with rfl | rfl <;> decide
      rw [hmask, identifiers_cut (by decide), identifiers_cons hop', identifiers_cons (by decide),
        identifiers_cons (by decide), identifiers_cut hc', identifiers_nil, List.append_nil]
      intro t ht
      rw [List.mem_append] at ht ⊢
      exact ht.imp_left fun ht => hwithin.subset ht
    · cases h
      exact List.subset_append_right ..
  · cases h
    exact List.subset_append_right ..

theorem identifiers_source {text : String} {cs : List Char} (h : source text = .ok cs) :
    identifiers (mask cs) ⊆ identifiers (mask text.toList) := by
  have htrim := (within_trim text.toList).subset
  rw [source] at h
  cases hstatement : Statement.ofText text (Text.trim text.toList) with
  | error f =>
    rw [hstatement] at h
    cases h
  | ok statement =>
    rw [hstatement] at h
    cases h
    cases statement with
    | compute cs => exact text_of_compute hstatement ▸ htrim
    | assign name right =>
      obtain ⟨i, hshown, hname, hexpand⟩ := exists_of_assign hstatement
      obtain ⟨hleft, hright⟩ := within_cut (c := '=') (by decide)
        (mask ((Text.trim text.toList).take i)) (mask ((Text.trim text.toList).drop (i + 1)))
      rw [← (mask_cut hshown (by decide) (by decide)).2] at hleft hright
      intro t ht
      rcases List.mem_append.1 (identifiers_expand hexpand hname ht) with ht | ht
      · exact htrim (((within_trim _).trans hleft).subset ht)
      · exact htrim (((within_trim _).trans hright).subset ht)

/-- **The value of an expression depends on the identifiers that it shows**, if the groups of the
text that is evaluated touch nothing. -/
theorem valueOf_congr (env : Environment) {text : String} (hnames : NamesFinite names)
    (hsource : ∀ cs, source text = .ok cs → Apart (mask cs))
    (h : Agrees (mask text.toList) names names') :
    valueOf env names text = valueOf env names' text := by
  rw [valueOf, valueOf]
  split
  · rfl
  · split
    · rfl
    · cases hcs : source text with
      | error f => rfl
      | ok cs =>
        exact evaluateArithmetic_congr hnames (hsource cs hcs)
          (h.of_subset (identifiers_source hcs))

theorem finite_of_valueOf {env : Environment} {text : String} {v : Value}
    (hnames : NamesFinite names) (h : valueOf env names text = .ok v) :
    ∀ x, v = .number x → x.IsFinite := by
  rw [valueOf] at h
  split at h
  · cases h
    rintro x ⟨⟩
  · split at h
    · cases h
    · cases hcs : source text with
      | error f =>
        rw [hcs] at h
        cases h
      | ok cs =>
        rw [hcs] at h
        exact finite_of_evaluateArithmetic hnames h

end BusinessRules.Expression

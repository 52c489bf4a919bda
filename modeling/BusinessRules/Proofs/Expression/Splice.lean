import BusinessRules.Proofs.Expression.Flat

/-!
# Groups replaced by literals

The evaluator replaces the last group that opens by the literal of its value and evaluates the
text that results.  The literal is a word of the grammar with the value of the group, so each
replacement turns the text of a tree into the text of a tree with one group less, and in the end
into the text of a flat formula.

## Main statements

* `evaluateArithmetic_group`: one replacement
* `exists_leaf_of_format`: a literal is a word that has the value
* `Operand.flatten`, `Formula.flatten`: all replacements in an operand and in a formula
-/

namespace BusinessRules.Expression

open Text (Blanks Tight)

/-! ## The last group -/

/-- The characters other than parentheses. -/
def isNoParen (c : Char) : Bool := c != '(' && c != ')'

theorem isNoParen_of_isFlatChar (c : Char) (h : isFlatChar c = true) : isNoParen c = true := by
  rw [isNoParen, Bool.and_eq_true, bne_iff_ne, bne_iff_ne]
  exact ⟨ne_of_class h (by decide), ne_of_class h (by decide)⟩

theorem not_mem_of_shows {cs : List Char} (h : Shows isNoParen cs) :
    '(' ∉ mask cs ∧ ')' ∉ mask cs :=
  ⟨fun hmem => absurd (h.all _ hmem) (by decide), fun hmem => absurd (h.all _ hmem) (by decide)⟩

/-- The occurrences in front of an occurrence, that occurrence, and those behind it. -/
theorem occurrences_append_cons (c : Char) (as bs : List Char) :
    ∃ later, occurrences c (as ++ c :: bs) = occurrences c as ++ as.length :: later ∧
      (c ∉ bs → later = []) := by
  have h : occurrences c (as ++ c :: bs) = occurrences c (as ++ c :: bs) := rfl
  conv at h =>
    rhs
    rw [occurrences, List.zipIdx_append, List.filterMap_append, List.zipIdx_cons, Nat.zero_add,
      List.filterMap_cons_some (b := as.length) (by simp)]
  refine ⟨_, h, ?_⟩
  intro hc
  rw [List.filterMap_eq_nil_iff]
  rintro ⟨d, i⟩ hmem
  have hd : d ∈ bs := (List.mem_zipIdx hmem).2.2 ▸ List.getElem_mem _
  have hne : d ≠ c := by
    rintro rfl
    exact hc hd
  simp [hne]

/-- A group in front of a text without groups is the last one. -/
theorem lastGroup?_group {before inside after : List Char} (hbefore : quoteAfter none before = none)
    (hinside : Shows isNoParen inside) (hafter : '(' ∉ mask after) :
    lastGroup? (before ++ '(' :: inside ++ ')' :: after) = some (before, inside, after) := by
  have hopen : quoteAfter none ['('] = none := by decide
  have hclose : quoteAfter none [')'] = none := by decide
  have hmask : mask (before ++ '(' :: inside ++ ')' :: after) =
      mask before ++ '(' :: (mask inside ++ ')' :: mask after) := by
    rw [List.append_assoc, mask_append hbefore, List.cons_append, ← List.singleton_append,
      mask_append hopen, mask_append hinside.closed, ← List.singleton_append (x := ')'),
      mask_append hclose]
    rfl
  obtain ⟨hnoOpen, hnoClose⟩ := not_mem_of_shows hinside
  have hlast : (occurrences '(' (mask (before ++ '(' :: inside ++ ')' :: after))).getLast? =
      some before.length := by
    obtain ⟨later, hlater, hnil⟩ :=
      occurrences_append_cons '(' (mask before) (mask inside ++ ')' :: mask after)
    rw [hmask, hlater, hnil, List.getLast?_concat, length_mask]
    simp [hnoOpen, hafter]
  -- A closing parenthesis in front of the group does not count, and there is none inside.
  have hfind : (occurrences ')' (mask (before ++ '(' :: inside ++ ')' :: after))).find?
      (before.length < ·) = some (before.length + 1 + inside.length) := by
    obtain ⟨later, hlater, -⟩ :=
      occurrences_append_cons ')' (mask before ++ '(' :: mask inside) (mask after)
    have hearly : (occurrences ')' (mask before ++ '(' :: mask inside)).find?
        (before.length < ·) = none := by
      rw [List.find?_eq_none]
      intro i hi hlt
      have hlt' : before.length < i := by simpa using hlt
      rw [mem_occurrences, List.getElem?_append_right (by simpa using Nat.le_of_lt hlt'),
        length_mask] at hi
      obtain ⟨j, hj⟩ : ∃ j, i - before.length = j + 1 := ⟨i - before.length - 1, by omega⟩
      rw [hj, List.getElem?_cons_succ] at hi
      exact hnoClose (List.mem_of_getElem? hi)
    rw [hmask, ← List.cons_append, ← List.append_assoc, hlater, List.find?_append, hearly,
      Option.none_or, List.find?_cons_of_pos]
    · simp [Nat.add_comm 1, Nat.add_assoc]
    · simp
  have htake : (before ++ '(' :: inside ++ ')' :: after).take (before.length + 1 + inside.length) =
      before ++ '(' :: inside := by
    rw [List.take_left']
    simp [Nat.add_comm 1, Nat.add_assoc]
  have hdrop : (before ++ '(' :: inside ++ ')' :: after).drop
      (before.length + 1 + inside.length + 1) = after := by
    rw [show before ++ '(' :: inside ++ ')' :: after = (before ++ '(' :: inside ++ [')']) ++ after
      by simp, List.drop_left']
    simp [Nat.add_comm 1, Nat.add_assoc]
  rw [lastGroup?, hlast, Option.bind_some, hfind, Option.map_some, htake, hdrop, List.append_assoc,
    List.take_left, ← List.drop_drop, List.drop_left, List.drop_one, List.tail_cons]

variable {p : Precision} {names : Names}

theorem hasGroup_group {before after : List Char} (hbefore : quoteAfter none before = none) :
    hasGroup (before ++ '(' :: after) = true := by
  have hopen : quoteAfter none ['('] = none := by decide
  rw [hasGroup, mask_append hbefore, ← List.singleton_append, mask_append hopen]
  simp [mask_eq_maskFrom, maskFrom, maskChar]

theorem quoteAfter_trimStart {cs : List Char} (h : quoteAfter none cs = none) :
    quoteAfter none (Text.trimStart cs) = none := by
  obtain ⟨bs, hbs, hcs⟩ := Text.exists_trimStart cs
  rw [hcs, quoteAfter_append, (Shows.blanks (fun _ => id) ⟨bs, hbs⟩).closed] at h
  exact h

theorem not_mem_mask_trimEnd {c : Char} {cs : List Char} (h : c ∉ mask cs) :
    c ∉ mask (Text.trimEnd cs) := by
  obtain ⟨bs, -, hcs⟩ := Text.exists_trimEnd cs
  intro hmem
  refine h ?_
  rw [hcs, mask_eq_maskFrom, maskFrom_append, ← mask_eq_maskFrom]
  exact List.mem_append_left _ hmem

/-- A text is evaluated with a literal in the place of its last group. -/
theorem evaluateGroups_group {cs before inside after : List Char} (hcs : hasGroup cs = true)
    (hgroup : lastGroup? cs = some (before, inside, after)) :
    evaluateGroups p names cs =
      match evaluateFlat p names (Text.trim inside) with
      | .error f => .error f
      | .ok v =>
        match Literal.format v with
        | .error _ => .error (.ungroupable (String.ofList cs))
        | .ok literal => evaluateGroups p names (Text.trim (before ++ literal ++ after)) := by
  rw [evaluateGroups, if_pos hcs]
  split
  · next h =>
    rw [hgroup] at h
    cases h
  · next h =>
    rw [hgroup] at h
    cases h
    cases evaluateFlat p names (Text.trim inside) with
    | error f => rfl
    | ok v =>
      simp only
      split
      · next hv => rw [hv]
      · next literal hv => rw [hv]

/-- **One replacement.**  A group in front of a text without groups is replaced by the literal of
the value of its inside. -/
theorem evaluateArithmetic_group {before inside after : List Char}
    (hbefore : quoteAfter none before = none) (hinside : Shows isNoParen inside)
    (hafter : '(' ∉ mask after) :
    evaluateArithmetic p names (before ++ '(' :: inside ++ ')' :: after) =
      match evaluateFlat p names (Text.trim inside) with
      | .error f => .error f
      | .ok v =>
        match Literal.format v with
        | .error _ => .error (.ungroupable (String.ofList
            (Text.trim (before ++ '(' :: inside ++ ')' :: after))))
        | .ok literal => evaluateArithmetic p names (before ++ literal ++ after) := by
  -- Trimming stops at the parentheses, so that only the outer texts are trimmed, and the literal
  -- is put between the trimmed texts.
  have htrim : Text.trim (before ++ '(' :: inside ++ ')' :: after) =
      Text.trimStart before ++ '(' :: inside ++ ')' :: Text.trimEnd after := by
    rw [Text.trim, List.append_assoc, List.cons_append, Text.trimStart_around (by decide),
      ← List.cons_append, ← List.append_assoc, Text.trimEnd_around (by decide)]
  have hbefore' := quoteAfter_trimStart hbefore
  have hgroup := lastGroup?_group hbefore' hinside (not_mem_mask_trimEnd hafter)
  have hhas : hasGroup (Text.trimStart before ++ '(' :: inside ++ ')' :: Text.trimEnd after) =
      true := by
    rw [List.append_assoc, List.cons_append]
    exact hasGroup_group hbefore'
  simp only [evaluateArithmetic, htrim, evaluateGroups_group hhas hgroup, Text.trim_trimmed]

/-! ## Literals as words -/

theorem exists_leaf_of_word {cs : List Char} (identifier : isIdentifier cs = true) {v : Value}
    (hword : Literal.word? cs = some v) :
    ∃ l : Leaf, l.text = cs ∧ ∀ names, l.value names = .ok v :=
  ⟨.name cs identifier, rfl, fun names => by simp only [Leaf.value, hword]⟩

theorem exists_leaf_of_quoted {q : Char} (isMark : Literal.isQuote q = true) {s : String}
    (inside : q ∉ s.toList) :
    ∃ l : Leaf, l.text = q :: s.toList ++ [q] ∧ ∀ names, l.value names = .ok (.text s) :=
  ⟨.quoted q s.toList isMark inside, rfl, fun names => by rw [Leaf.value, String.ofList_toList]⟩

theorem exists_leaf_of_number {n : Decimal} (h : n.InRange) :
    ∃ (l : Leaf) (x : Decimal), l.text = n.plain ∧ (∀ names, l.value names = .ok (.number x)) ∧
      Decimal.Same x n ∧ x.InRange ∧ x.plain = n.plain := by
  obtain ⟨sign, c, e, rfl⟩ := h.isFinite
  obtain ⟨x, hx, hrange, hrat⟩ := Decimal.toDecimal?_written h
  have hplain : x.plain = (Decimal.finite sign c e).plain := by
    rw [← Decimal.plain_written, Numeral.eq_of_toDecimal? hx]
  have hread := Decimal.read?_plain sign c e
  have hvalue : (Numeral.read? (Decimal.finite sign c e).plain).bind Numeral.toDecimal? =
      some x := by
    rw [hread, Option.bind_some, hx]
  refine ⟨.number (Decimal.finite sign c e).plain (by rw [hread]; rfl), x, rfl, fun names => ?_,
    ⟨hrange.isFinite, h.isFinite, hrat⟩, hrange, hplain⟩
  simp only [Leaf.value, hvalue]

/-- **A literal is a word that has the value**, whatever names stand for. -/
theorem exists_leaf_of_format {v : Value} {literal : List Char}
    (h : Literal.format v = .ok literal) (hrange : ∀ n, v = .number n → n.InRange) :
    ∃ (l : Leaf) (w : Value), l.text = literal ∧ (∀ names, l.value names = .ok w) ∧ Alike w v ∧
      ∀ n, w = .number n → n.InRange := by
  have hself : (∃ l : Leaf, l.text = literal ∧ ∀ names, l.value names = .ok v) →
      ∃ (l : Leaf) (w : Value), l.text = literal ∧ (∀ names, l.value names = .ok w) ∧
        Alike w v ∧ ∀ n, w = .number n → n.InRange :=
    fun ⟨l, htext, hvalue⟩ => ⟨l, v, htext, hvalue, .inl rfl, hrange⟩
  match v with
  | .null =>
    cases h
    exact hself (exists_leaf_of_word (by decide) rfl)
  | .bool true =>
    cases h
    exact hself (exists_leaf_of_word (by decide) rfl)
  | .bool false =>
    cases h
    exact hself (exists_leaf_of_word (by decide) rfl)
  | .number n =>
    cases h
    -- A numeral is read back with other digits if the number had a positive exponent.
    obtain ⟨l, x, htext, hvalue, hsame, hx, -⟩ := exists_leaf_of_number (hrange n rfl)
    refine ⟨l, .number x, htext, hvalue, .inr ⟨x, n, rfl, rfl, hsame⟩, ?_⟩
    rintro y hy
    cases hy
    exact hx
  | .text s =>
    simp only [Literal.format, Literal.quoted?] at h
    split at h
    · next ds hd =>
      cases h
      split at hd
      · next hs =>
        cases hd
        exact hself (exists_leaf_of_quoted (by decide) (by simpa using hs))
      · split at hd
        · next hs =>
          cases hd
          exact hself (exists_leaf_of_quoted (by decide) (by simpa using hs))
        · cases hd
    · cases h
  | .list items => cases h

/-- A word whose value fits, fits. -/
theorem Leaf.fits_of_value {l : Leaf} {w : Value} (h : l.value names = .ok w)
    (hfits : w.toNumber.Fits p) : l.Fits p := by
  cases l with
  | number cs reads =>
    rw [Leaf.value] at h
    split at h
    · next d hd =>
      cases h
      exact ⟨d, hd, hfits⟩
    · cases h
  | quoted q cs isMark inside =>
    cases h
    exact hfits
  | name cs identifier => trivial

/-- The literal of a value that fits is a word that fits. -/
theorem exists_leaf_of_fits (names : Names) {v : Value} {literal : List Char}
    (h : Literal.format v = .ok literal) (hfits : v.toNumber.Fits p) :
    ∃ l : Leaf, l.text = literal ∧ l.Fits p ∧ Agree Eq (Close p) (l.value names) (.ok v) := by
  have hrange : ∀ n, v = .number n → n.InRange := by
    rintro n rfl
    exact hfits.inRange
  obtain ⟨l, w, htext, hvalue, halike, hw⟩ := exists_leaf_of_format h hrange
  have hwfits : w.toNumber.Fits p := by
    rcases halike with rfl | ⟨x, y, rfl, rfl, hxy⟩
    · exact hfits
    · exact hfits.congr (hw x rfl) hxy.toRat_eq.symm
  refine ⟨l, htext, l.fits_of_value (hvalue names) hwfits, ?_⟩
  rw [hvalue names]
  exact .ok ⟨halike, hwfits, hfits⟩

/-! ## All replacements -/

/-- Two faults of one kind of cause: the same fault, or two groups without a literal, which are
reported with the text at hand. -/
def SameFault (f g : Fault) : Prop := f = g ∨ ∃ s t, f = .ungroupable s ∧ g = .ungroupable t

/-- What the replacement of all groups in a part of a text comes to: a fault of the whole text, or
another part in whose place the text is evaluated alike. -/
inductive Flattened {α : Type} (p : Precision) (names : Names) (text : α → List Char)
    (Flattening : α → α → Prop) (before after : List Char) (x : α) (fault : Option Fault) : Prop
  | failed (f g : Fault) (found : fault = some g) (same : SameFault f g)
    (result : evaluateArithmetic p names (before ++ text x ++ after) = .error f)
  | done (y : α) (found : fault = none) (flattening : Flattening x y)
    (result : evaluateArithmetic p names (before ++ text x ++ after) =
      evaluateArithmetic p names (before ++ text y ++ after))

/-- A flat operand that fits and has the value of another one. -/
structure Operand.Flattening (p : Precision) (names : Names) (o o' : Operand) : Prop where
  flat : o'.IsFlat
  fits : o'.Fits p
  value : Agree Eq (Close p) (o'.value p names) (o.value p names)

/-- A flat formula that fits and has the values of another one. -/
structure Formula.Flattening (p : Precision) (names : Names) (s s' : Formula) : Prop where
  flat : Formula.IsFlat s'
  fits : Formula.Fits p s'
  values : Sequence.Related (Agree Eq (Close p)) (Formula.values p names s')
    (Formula.values p names s)

/-- Flattening does not change the value of a formula. -/
theorem Formula.Flattening.value {s s' : Formula} (h : Formula.Flattening p names s s') :
    Agree Eq (Close p) (Formula.value p names s') (Formula.value p names s) :=
  h.values.ladder fun op _ _ _ _ hx hy => op.combine_congr hx hy

theorem quoteAfter_append_closed {as bs : List Char} (ha : quoteAfter none as = none)
    (hb : quoteAfter none bs = none) : quoteAfter none (as ++ bs) = none := by
  rw [quoteAfter_append, ha, hb]

theorem not_mem_mask_append {c : Char} {as bs : List Char} (ha : quoteAfter none as = none)
    (has : c ∉ mask as) (hbs : c ∉ mask bs) : c ∉ mask (as ++ bs) := by
  rw [mask_append ha, List.mem_append]
  exact not_or.2 ⟨has, hbs⟩

/-- Flat formulas show no parentheses. -/
theorem Formula.shows_flat {s : Formula} (hs : Formula.IsFlat s) :
    Shows isNoParen (Formula.text s) :=
  Formula.shows isNoParen_of_isFlatChar s (.inl hs)

theorem Operand.shows_flat {o : Operand} (ho : o.IsFlat) : Shows isNoParen o.text :=
  Operand.shows isNoParen_of_isFlatChar o (.inl ho)

/-- The text of an operation leaves no quote open and shows no parenthesis. -/
theorem shows_operation (before : Blanks) (op : Operation) (after : Blanks) :
    Shows isNoParen (before.chars ++ op.symbol :: after.chars) :=
  (Shows.blanks isNoParen_of_isFlatChar before).append
    ((Shows.operator isNoParen_of_isFlatChar (operators_symbol op)).append
      (Shows.blanks isNoParen_of_isFlatChar after))

theorem Shows.not_mem_append {cs after : List Char} (h : Shows isNoParen cs)
    (hafter : '(' ∉ mask after) : '(' ∉ mask (cs ++ after) :=
  not_mem_mask_append h.closed (not_mem_of_shows h).1 hafter

/-! ## Parts of a text between other texts -/

/-- What stands in front of the operand of a sign. -/
theorem Operand.text_signed_between (before : List Char) (negative : Bool) (gap : Blanks)
    (o : Operand) (after : List Char) : before ++ (Operand.signed negative gap o).text ++ after =
      before ++ signSymbol negative :: gap.chars ++ o.text ++ after := by
  simp [Operand.text]

/-- What stands around the inside of a group. -/
theorem Operand.text_group_between (before : List Char) (front : Blanks) (inside : Formula)
    (back : Blanks) (after : List Char) :
    before ++ (Operand.group front inside back).text ++ after =
      before ++ '(' :: front.chars ++ Formula.text inside ++ (back.chars ++ ')' :: after) := by
  simp [Operand.text]

/-- The blanks inside a group may count as its surroundings. -/
theorem group_between (before : List Char) (front : Blanks) (inside : List Char) (back : Blanks)
    (after : List Char) : before ++ '(' :: front.chars ++ inside ++ (back.chars ++ ')' :: after) =
      before ++ '(' :: (front.chars ++ inside ++ back.chars) ++ ')' :: after := by
  simp

/-- What stands around the operands behind the first one. -/
theorem Formula.text_rest_between (before : List Char) (o : Operand) (gap : Blanks)
    (op : Operation) (gap' : Blanks) (rest : Formula) (after : List Char) :
    before ++ Formula.text (.link o gap op gap' rest) ++ after =
      before ++ (o.text ++ (gap.chars ++ op.symbol :: gap'.chars)) ++ Formula.text rest ++
        after := by
  simp [Formula.text]

/-- What stands around the first operand. -/
theorem Formula.text_head_between (before : List Char) (o : Operand) (gap : Blanks)
    (op : Operation) (gap' : Blanks) (rest : Formula) (after : List Char) :
    before ++ Formula.text (.link o gap op gap' rest) ++ after =
      before ++ o.text ++
        (gap.chars ++ op.symbol :: gap'.chars ++ (Formula.text rest ++ after)) := by
  simp [Formula.text]

theorem closed_sign (negative : Bool) (gap : Blanks) :
    quoteAfter none (signSymbol negative :: gap.chars) = none :=
  ((Shows.operator isNoParen_of_isFlatChar (operators_signSymbol negative)).append
    (Shows.blanks isNoParen_of_isFlatChar gap)).closed

theorem closed_opening (front : Blanks) : quoteAfter none ('(' :: front.chars) = none := by
  have hopen : Shows (fun _ => true) ['('] := .singleton (by decide) rfl
  exact (hopen.append (Shows.blanks (fun _ _ => rfl) front)).closed

theorem not_mem_closing (back : Blanks) {after : List Char} (hafter : '(' ∉ mask after) :
    '(' ∉ mask (back.chars ++ ')' :: after) := by
  have hclose : '(' ∉ mask (')' :: after) :=
    not_mem_mask_append (show quoteAfter none [')'] = none by decide) (by decide) hafter
  exact (Shows.blanks isNoParen_of_isFlatChar back).not_mem_append hclose

/-! ## Replacements in trees -/

/-- The replacement of the text of a flat formula in parentheses. -/
theorem evaluateArithmetic_inside {s : Formula} (hs : Formula.IsFlat s) (front back : Blanks)
    {before after : List Char} (hbefore : quoteAfter none before = none)
    (hafter : '(' ∉ mask after) :
    evaluateArithmetic p names
        (before ++ '(' :: (front.chars ++ Formula.text s ++ back.chars) ++ ')' :: after) =
      match evaluateFlat p names (Formula.text s) with
      | .error f => .error f
      | .ok v =>
        match Literal.format v with
        | .error _ => .error (.ungroupable (String.ofList (Text.trim
            (before ++ '(' :: (front.chars ++ Formula.text s ++ back.chars) ++ ')' :: after))))
        | .ok literal => evaluateArithmetic p names (before ++ literal ++ after) := by
  have hshows : Shows isNoParen (front.chars ++ Formula.text s ++ back.chars) :=
    ((Shows.blanks isNoParen_of_isFlatChar front).append (Formula.shows_flat hs)).append
      (Shows.blanks isNoParen_of_isFlatChar back)
  rw [evaluateArithmetic_group hbefore hshows hafter,
    (Formula.tight s).trim front.blank back.blank]

/-- The replacement of a group whose inside is flat already. -/
theorem Operand.flatten_group (hnames : NamesFit p names) (front : Blanks) (inside s : Formula)
    (back : Blanks) (hs : Formula.Flattening p names inside s)
    (hnone : Formula.groupFault? p names inside = none) {before after : List Char}
    (hbefore : quoteAfter none before = none) (hafter : '(' ∉ mask after)
    (hresult : evaluateArithmetic p names
        (before ++ (Operand.group front inside back).text ++ after) =
      evaluateArithmetic p names
        (before ++ '(' :: (front.chars ++ Formula.text s ++ back.chars) ++ ')' :: after)) :
    Flattened p names Operand.text (Operand.Flattening p names) before after
      (.group front inside back) ((Operand.group front inside back).groupFault? p names) := by
  have hvalue := agree_close_trans (evaluateFlat_formula hnames s hs.flat hs.fits) hs.value
  have hfault : (Operand.group front inside back).groupFault? p names =
      fault? (groupOutcome (Formula.value p names inside)) := by
    rw [Operand.groupFault?, hnone, Option.none_or, Operand.value, Formula.value]
  have houtcome : (Operand.group front inside back).value p names =
      groupOutcome (Formula.value p names inside) := by
    rw [Operand.value, Formula.value]
  rw [evaluateArithmetic_inside hs.flat front back hbefore hafter] at hresult
  generalize evaluateFlat p names (Formula.text s) = x at hvalue hresult
  generalize Formula.value p names inside = y at hvalue hfault houtcome
  cases hvalue with
  | @error f g hfg => exact .failed f g hfault (.inl hfg) hresult
  | @ok v w hvw =>
    -- The values of text and tree are alike, so that both have a literal or neither has.
    rcases hliteral : w.hasLiteral with _ | _
    · obtain ⟨f, hf⟩ := Value.exists_error_of_not_hasLiteral (hvw.hasLiteral.trans hliteral)
      simp only [hf] at hresult
      simp only [groupOutcome, hliteral] at hfault
      exact .failed _ _ hfault (.inr ⟨_, _, rfl, rfl⟩) hresult
    · obtain ⟨literal, hformat⟩ :=
        Value.exists_format_of_hasLiteral (hvw.hasLiteral.trans hliteral)
      obtain ⟨l, rfl, hfits, hl⟩ := exists_leaf_of_fits names hformat hvw.left
      simp only [hformat] at hresult
      simp only [groupOutcome, hliteral, if_true] at hfault houtcome
      refine .done (.leaf l) hfault ⟨trivial, ?_, ?_⟩ hresult
      · exact fun l' hl' => List.mem_singleton.1 hl' ▸ hfits
      · rw [houtcome]
        exact agree_close_trans hl (.ok hvw)

mutual

/-- **All replacements in an operand.** -/
theorem Operand.flatten (hnames : NamesFit p names) : (o : Operand) → o.Fits p →
    {before after : List Char} → quoteAfter none before = none → '(' ∉ mask after →
      Flattened p names Operand.text (Operand.Flattening p names) before after o
        (o.groupFault? p names)
  | .leaf l, hfits, _, _, _, _ =>
    .done (.leaf l) rfl
      ⟨trivial, hfits, l.value_fits (hfits l (List.mem_singleton_self _)) hnames⟩ rfl
  | .signed negative gap o, hfits, before, after, hbefore, hafter => by
    cases Operand.flatten hnames o hfits
      (quoteAfter_append_closed hbefore (closed_sign negative gap)) hafter with
    | failed f g found same result =>
      exact .failed f g found same (by rw [Operand.text_signed_between, result])
    | done o' found flattening result =>
      exact .done (.signed negative gap o') found
        ⟨flattening.flat, flattening.fits, signedOutcome_congr negative flattening.value⟩
        (by rw [Operand.text_signed_between, Operand.text_signed_between, result])
  | .group front inside back, hfits, before, after, hbefore, hafter => by
    -- The parentheses count as surroundings while the inside is flattened, then the group is
    -- replaced as a whole.
    cases Formula.flatten hnames inside hfits
      (quoteAfter_append_closed hbefore (closed_opening front)) (not_mem_closing back hafter) with
    | failed f g found same result =>
      refine .failed f g ?_ same (by rw [Operand.text_group_between, result])
      rw [Operand.groupFault?, found, Option.some_or]
    | done s found flattening result =>
      refine Operand.flatten_group hnames front inside s back flattening found hbefore hafter ?_
      rw [Operand.text_group_between, result, group_between]

/-- **All replacements in a formula.** -/
theorem Formula.flatten (hnames : NamesFit p names) : (s : Sequence Operand) → Formula.Fits p s →
    {before after : List Char} → quoteAfter none before = none → '(' ∉ mask after →
      Flattened p names Formula.text (Formula.Flattening p names) before after s
        (Formula.groupFault? p names s)
  | .single o, hfits, before, after, hbefore, hafter => by
    cases Operand.flatten hnames o hfits hbefore hafter with
    | failed f g found same result => exact .failed f g found same result
    | done o' found flattening result =>
      refine .done (.single o') found ⟨?_, flattening.fits, .single flattening.value⟩ result
      exact Formula.isFlat_single flattening.flat
  | .link o gap op gap' rest, hfits, before, after, hbefore, hafter => by
    have hoperation := shows_operation gap op gap'
    -- The last operand comes first, with what stands in front of it still as it was.
    have hfitso : o.Fits p := fun l hl => hfits l (List.mem_append_left _ hl)
    have hfitsrest : Formula.Fits p rest := fun l hl => hfits l (List.mem_append_right _ hl)
    cases Formula.flatten hnames rest hfitsrest
      (quoteAfter_append_closed hbefore (quoteAfter_append_closed o.closed hoperation.closed))
      hafter with
    | failed f g found same result =>
      refine .failed f g ?_ same (by rw [Formula.text_rest_between, result])
      rw [Formula.groupFault?, found, Option.some_or]
    | done s found flattening result =>
      have hafter' : '(' ∉ mask (gap.chars ++ op.symbol :: gap'.chars ++
          (Formula.text s ++ after)) :=
        hoperation.not_mem_append ((Formula.shows_flat flattening.flat).not_mem_append hafter)
      cases Operand.flatten hnames o hfitso hbefore hafter' with
      | failed f g found' same result' =>
        refine .failed f g ?_ same (by
          rw [Formula.text_rest_between, result, ← Formula.text_rest_between,
            Formula.text_head_between, result'])
        rw [Formula.groupFault?, found, Option.none_or, found']
      | done o' found' flattening' result' =>
        refine .done (.link o' gap op gap' s) ?_ ⟨?_, ?_, ?_⟩ (by
          rw [Formula.text_rest_between, result, ← Formula.text_rest_between,
            Formula.text_head_between, result', Formula.text_head_between])
        · rw [Formula.groupFault?, found, Option.none_or, found']
        · intro o'' ho''
          rcases List.mem_cons.1 ho'' with rfl | ho''
          · exact flattening'.flat
          · exact flattening.flat o'' ho''
        · intro l hl
          exact (List.mem_append.1 hl).elim (flattening'.fits l) (flattening.fits l)
        · exact .link flattening'.value flattening.values

end

end BusinessRules.Expression

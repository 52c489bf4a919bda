import BusinessRules.Proofs.Decimal.Value
import BusinessRules.Proofs.Expression.Cut

/-!
# Identifiers that a text shows

A name is looked up only if it is written: no step of an evaluation makes an identifier that the
text does not show.  Two things have to be seen to for this.  Where a text is cut, no run of
characters of names is cut in two, and where a literal is put in the place of a group, it does not
grow together with what stands next to the group.

## Main definitions

* `identifiers`: the identifiers of a masked text
* `Within`: a masked text inside another one, cut off between runs of characters of names
* `Balanced`: a masked text whose parentheses match
* `Apart`: a masked text whose groups touch neither characters of names nor each other
* `MayPrecede`: characters next to each other of which none is a parenthesis that touches anything

## Main statements

* `Within.subset`, `Within.apart`: what is cut off shows no other identifiers and touches nothing
* `splice_group`: a text with a literal in the place of its last group touches nothing either
-/

namespace BusinessRules.Expression

/-! ## Identifiers -/

/-- The identifiers of a masked text, words that are literals left out. -/
def identifiers (masked : List Char) : List (List Char) :=
  (masked.splitOnP fun c => !isNameChar c).filter fun run =>
    isIdentifier run && (Literal.word? run).isNone

/-- Two texts around a third one none of whose names reaches into it. -/
structure Clear (front back : List Char) : Prop where
  left : ∀ c ∈ front.getLast?, isNameChar c = false
  right : ∀ c ∈ back.head?, isNameChar c = false

section Identifiers

variable {as bs : List Char}

theorem identifiers_cut {c : Char} (hc : isNameChar c = false) (as bs : List Char) :
    identifiers (as ++ c :: bs) = identifiers as ++ identifiers bs := by
  rw [identifiers, List.splitOnP_append_cons as bs (by rw [hc, Bool.not_false]),
    List.filter_append]
  rfl

theorem identifiers_nil : identifiers [] = [] := by
  rw [identifiers, List.splitOnP_nil]
  rfl

theorem identifiers_cons {c : Char} (hc : isNameChar c = false) (cs : List Char) :
    identifiers (c :: cs) = identifiers cs := by
  have hcut := identifiers_cut hc [] cs
  rwa [List.nil_append, identifiers_nil, List.nil_append] at hcut

/-- Texts may be taken apart where no name runs on. -/
theorem identifiers_append (h : (∀ c ∈ as.getLast?, isNameChar c = false) ∨
    ∀ c ∈ bs.head?, isNameChar c = false) :
    identifiers (as ++ bs) = identifiers as ++ identifiers bs := by
  rcases h with has | hbs
  · rcases List.eq_nil_or_concat as with rfl | ⟨front, c, rfl⟩
    · rw [List.nil_append, identifiers_nil, List.nil_append]
    · have hc : isNameChar c = false := has c (by simp)
      rw [List.concat_eq_append, List.append_assoc, List.singleton_append, identifiers_cut hc,
        identifiers_cut hc, identifiers_nil, List.append_nil]
  · cases bs with
    | nil => rw [List.append_nil, identifiers_nil, List.append_nil]
    | cons c back =>
      have hc : isNameChar c = false := hbs c rfl
      rw [identifiers_cut hc, identifiers_cons hc]

theorem identifiers_around (h : Clear as bs) (inner : List Char) :
    identifiers (as ++ inner ++ bs) = identifiers as ++ identifiers inner ++ identifiers bs := by
  rw [identifiers_append (.inr h.right), identifiers_append (.inl h.left)]

/-- Without the characters that names begin with there are no identifiers. -/
theorem identifiers_eq_nil (h : ∀ c ∈ as, isNameStart c = false) : identifiers as = [] := by
  rw [identifiers, List.filter_eq_nil_iff]
  rintro run hrun hname
  cases run with
  | nil => cases hname
  | cons c run =>
    rw [isIdentifier, h c (mem_of_mem_splitOnP hrun c List.mem_cons_self)] at hname
    cases hname

theorem mem_identifiers_self (hname : isIdentifier as = true) (hword : Literal.word? as = none) :
    as ∈ identifiers as := by
  have hruns : as.splitOnP (fun c => !isNameChar c) = [as] :=
    List.splitOnP_eq_singleton fun c hc => by
      rw [isNameChar_of_isIdentifier hname c hc, Bool.not_true]
  rw [identifiers, hruns]
  simp [hname, hword]

end Identifiers

theorem isNameStart_of_isDigit {c : Char} (h : c.isDigit = true) : isNameStart c = false := by
  have halpha : c.isAlpha = false := by
    simp only [Char.isDigit, Bool.and_eq_true, decide_eq_true_eq, UInt32.le_iff_toNat_le] at h
    simp [Char.isAlpha, Char.isUpper, Char.isLower, UInt32.le_iff_toNat_le] at h ⊢
    omega
  have hunderscore : c ≠ '_' := by
    rintro rfl
    revert h
    decide
  rw [isNameStart, halpha, decide_eq_false hunderscore, Bool.or_false]

/-- **Literals show no identifiers.**  Numbers that are not finite would. -/
theorem identifiers_literal {v : Value} {literal : List Char} (h : Literal.format v = .ok literal)
    (hfinite : ∀ x, v = .number x → x.IsFinite) : identifiers (mask literal) = [] := by
  match v with
  | .null =>
    cases h
    decide
  | .bool true =>
    cases h
    decide
  | .bool false =>
    cases h
    decide
  | .number x =>
    cases h
    obtain ⟨negative, n, e, rfl⟩ := hfinite x rfl
    refine identifiers_eq_nil fun c hc => ?_
    rcases mem_mask hc with hc | rfl
    · rcases mem_plain_finite negative n e c hc with hdigit | rfl | rfl
      · exact isNameStart_of_isDigit hdigit
      · decide
      · decide
    · decide
  | .text s =>
    rw [Literal.format] at h
    split at h
    · next cs hcs =>
      cases h
      obtain ⟨q, isMark, inside, rfl⟩ := exists_quoted hcs
      have hmark : isNameStart q = false := by
        rcases List.mem_pair.1 (mem_of_isQuote q isMark) with rfl | rfl <;> decide
      refine identifiers_eq_nil fun c hc => ?_
      rw [mask_quoted isMark inside] at hc
      simp only [List.mem_cons, List.mem_append, List.mem_replicate, List.not_mem_nil,
        or_false] at hc
      rcases hc with rfl | ⟨-, rfl⟩ | rfl
      · exact hmark
      · decide
      · exact hmark
    · cases h
  | .list items => cases h

/-! ## Texts inside others -/

namespace Clear

variable {front back front' back' : List Char}

theorem append (h : Clear front back) (h' : Clear front' back') :
    Clear (front ++ front') (back' ++ back) := by
  constructor
  · intro c hc
    rw [List.getLast?_append, Option.mem_def, Option.or_eq_some_iff] at hc
    exact hc.elim (h'.left c) fun hc => h.left c hc.2
  · intro c hc
    rw [List.head?_append, Option.mem_def, Option.or_eq_some_iff] at hc
    exact hc.elim (h'.right c) fun hc => h.right c hc.2

/-- Texts without characters of names are clear of what they surround. -/
theorem of_forall (h : ∀ c ∈ front ++ back, isNameChar c = false) : Clear front back :=
  ⟨fun c hc => h c (List.mem_append_left _ (List.mem_of_getLast? hc)),
    fun c hc => h c (List.mem_append_right _ (List.mem_of_head? hc))⟩

end Clear

/-- A masked text inside another one, cut off where no name runs on. -/
def Within (inner outer : List Char) : Prop :=
  ∃ front back, outer = front ++ inner ++ back ∧ Clear front back

theorem Within.trans {inner mid outer : List Char} (h : Within inner mid) (h' : Within mid outer) :
    Within inner outer := by
  obtain ⟨front, back, rfl, hclear⟩ := h
  obtain ⟨front', back', rfl, hclear'⟩ := h'
  exact ⟨front' ++ front, back ++ back', by simp, hclear'.append hclear⟩

/-- A masked text shows the identifiers of what is cut off from it. -/
theorem Within.subset {inner outer : List Char} (h : Within inner outer) :
    identifiers inner ⊆ identifiers outer := by
  obtain ⟨front, back, rfl, hclear⟩ := h
  rw [identifiers_around hclear]
  exact fun t ht => List.mem_append_left _ (List.mem_append_right _ ht)

/-! ## Matching parentheses -/

/-- The number of parentheses that are open behind one more character; none if it closes one that
is not open. -/
def stepDepth (n : Nat) (c : Char) : Option Nat :=
  if c = '(' then some (n + 1)
  else if c = ')' then if n = 0 then none else some (n - 1)
  else some n

/-- The number of parentheses that are open behind a masked text. -/
def depth (n : Nat) (masked : List Char) : Option Nat := masked.foldlM stepDepth n

/-- A masked text whose parentheses match. -/
def Balanced (masked : List Char) : Prop := depth 0 masked = some 0

/-- A masked text without parentheses. -/
def Plain (masked : List Char) : Prop := '(' ∉ masked ∧ ')' ∉ masked

theorem depth_append (n : Nat) (as bs : List Char) :
    depth n (as ++ bs) = (depth n as).bind fun m => depth m bs :=
  List.foldlM_append

theorem depth_plain {masked : List Char} (h : Plain masked) (n : Nat) :
    depth n masked = some n := by
  obtain ⟨hopen, hclose⟩ := h
  induction masked with
  | nil => rfl
  | cons c cs ih =>
    rw [List.mem_cons, not_or] at hopen hclose
    rw [depth, List.foldlM_cons, stepDepth, if_neg (Ne.symm hopen.1), if_neg (Ne.symm hclose.1)]
    exact ih hopen.2 hclose.2

/-- Behind a group as many parentheses are open as in front of it. -/
theorem depth_group {masked : List Char} (h : Plain masked) (n : Nat) :
    depth n ('(' :: (masked ++ [')'])) = some n := by
  have hopen : depth n ['('] = some (n + 1) := rfl
  have hclose : depth (n + 1) [')'] = some n := rfl
  rw [← List.singleton_append, depth_append, hopen, Option.bind_some, depth_append, depth_plain h,
    Option.bind_some, hclose]

/-! ## Groups that touch nothing -/

/-- A masked text none of whose groups touches a character of a name or another group. -/
def Apart (masked : List Char) : Prop :=
  ∀ front inside back, masked = front ++ '(' :: (inside ++ ')' :: back) → Balanced inside →
    Clear front back ∧ ∀ inside' back', back = '(' :: (inside' ++ ')' :: back') → ¬ Balanced inside'

/-- Whether a character may stand before another one where no parenthesis touches an operand or
another group. -/
def MayPrecede (c d : Char) : Prop :=
  (d = '(' → isNameChar c = false ∧ c ≠ ')') ∧ (c = ')' → isNameChar d = false)

instance (c d : Char) : Decidable (MayPrecede c d) := inferInstanceAs (Decidable (_ ∧ _))

/-- It is enough to look at neighbours, whichever parentheses belong together. -/
theorem apart_of_isChain {masked : List Char} (h : masked.IsChain MayPrecede) : Apart masked := by
  rintro front inside back rfl -
  obtain ⟨-, hinside, hopen⟩ := List.isChain_append.1 h
  rw [← List.cons_append] at hinside
  have hclose : ∀ c ∈ back.head?, MayPrecede ')' c := fun c hc =>
    (List.isChain_cons.1 (List.isChain_append.1 hinside).2.1).1 c hc
  refine ⟨⟨fun c hc => ((hopen c hc '(' rfl).1 rfl).1, fun c hc => (hclose c hc).2 rfl⟩, ?_⟩
  rintro inside' back' rfl -
  exact ((hclose '(' rfl).1 rfl).2 rfl

/-- Groups that touch nothing touch nothing in a part of the text. -/
theorem Within.apart {inner outer : List Char} (h : Within inner outer) (hapart : Apart outer) :
    Apart inner := by
  obtain ⟨before, after, rfl, -⟩ := h
  rintro front inside back rfl hbalanced
  obtain ⟨hclear, htouch⟩ := hapart (before ++ front) inside (back ++ after) (by simp) hbalanced
  refine ⟨⟨fun c hc => hclear.left c ?_, fun c hc => hclear.right c ?_⟩, ?_⟩
  · rw [Option.mem_def, List.getLast?_append, Option.mem_def.1 hc, Option.some_or]
  · rw [Option.mem_def, List.head?_append, Option.mem_def.1 hc, Option.some_or]
  · rintro inside' back' rfl
    exact htouch inside' (back' ++ after) (by simp)

/-! ## Literals in the place of groups -/

/-- A text, and what it was before a part of it was put in the place of another one, if that part
is in it. -/
inductive Replaced (part whole : List Char) : List Char → List Char → Prop
  | none (cs : List Char) : Replaced part whole cs cs
  | one (front back : List Char) :
      Replaced part whole (front ++ (part ++ back)) (front ++ (whole ++ back))

namespace Replaced

variable {part whole : List Char}

/-- The part is in front of a character that it does not hold, or behind it. -/
theorem cut {c : Char} (hne : part ≠ []) (hc : c ∉ part) {front back cs : List Char}
    (h : Replaced part whole (front ++ c :: back) cs) :
    ∃ front' back', cs = front' ++ c :: back' ∧ Replaced part whole front front' ∧
      Replaced part whole back back' := by
  generalize hsplit : front ++ c :: back = text at h
  cases h with
  | none => exact ⟨front, back, hsplit.symm, .none front, .none back⟩
  | one before after =>
    rcases List.append_eq_append_iff.1 hsplit with ⟨rest, rfl, hrest⟩ | ⟨rest, rfl, hrest⟩
    · cases rest with
      | nil =>
        obtain ⟨d, part, rfl⟩ := List.exists_cons_of_ne_nil hne
        rw [List.nil_append, List.cons_append] at hrest
        exact absurd ((List.cons.inj hrest).1 ▸ List.mem_cons_self) hc
      | cons d rest =>
        obtain ⟨rfl, rfl⟩ := List.cons.inj hrest
        exact ⟨front, rest ++ (whole ++ after), by simp, .none front, .one rest after⟩
    · rcases List.append_eq_append_iff.1 hrest with ⟨rest', rfl, rfl⟩ | ⟨rest', hpart, hafter⟩
      · exact ⟨before ++ (whole ++ rest'), back, by simp, .one before rest', .none back⟩
      · cases rest' with
        | nil =>
          rw [List.append_nil] at hpart
          rw [List.nil_append] at hafter
          subst hpart hafter
          have hend : Replaced part whole _ _ := .one before []
          rw [List.append_nil] at hend
          exact ⟨before ++ (whole ++ []), back, by simp, hend, .none back⟩
        | cons d rest' =>
          rw [hpart, (List.cons.inj hafter).1] at hc
          exact absurd (List.mem_append_right rest List.mem_cons_self) hc

theorem nil {cs : List Char} (hne : part ≠ []) (h : Replaced part whole [] cs) : cs = [] := by
  generalize hnil : [] = text at h
  cases h with
  | none => rfl
  | one front back =>
    exact absurd (List.append_eq_nil_iff.1 (List.append_eq_nil_iff.1 hnil.symm).2).1 hne

theorem depth_eq (h : ∀ n, depth n whole = depth n part) {cs cs' : List Char}
    (hcs : Replaced part whole cs cs') (n : Nat) : depth n cs' = depth n cs := by
  cases hcs with
  | none => rfl
  | one front back => simp only [depth_append, h]

end Replaced

/-- **A literal in the place of a group touches nothing that the group did not touch.** -/
theorem Apart.splice {before inside after literal : List Char}
    (h : Apart (before ++ '(' :: (inside ++ ')' :: after))) (hinside : Plain inside)
    (hliteral : Plain literal) (hne : literal ≠ []) : Apart (before ++ literal ++ after) := by
  have hbalanced : ∀ {cs cs' : List Char},
      Replaced literal ('(' :: (inside ++ [')'])) cs cs' → Balanced cs → Balanced cs' := by
    intro cs cs' hcs hcs'
    rw [Balanced, hcs.depth_eq fun n => (depth_group hinside n).trans (depth_plain hliteral n).symm]
    exact hcs'
  intro front inner back htext hinner
  -- The parentheses of a group are those of a group before.
  have hreplaced : Replaced literal ('(' :: (inside ++ [')']))
      (front ++ '(' :: (inner ++ ')' :: back)) (before ++ '(' :: (inside ++ ')' :: after)) := by
    have hone : Replaced literal ('(' :: (inside ++ [')'])) _ _ := .one before after
    rw [← htext, List.append_assoc]
    simpa using hone
  obtain ⟨front', rest, hold, hfront, hrest⟩ := hreplaced.cut hne hliteral.1
  obtain ⟨inner', back', rfl, hinner', hback⟩ := hrest.cut hne hliteral.2
  have hbalanced' := hbalanced hinner' hinner
  obtain ⟨hclear, htouch⟩ := h front' inner' back' hold hbalanced'
  refine ⟨⟨fun c hc => ?_, fun c hc => ?_⟩, ?_⟩
  · -- A literal does not end in front of this group, as two groups would have touched.
    cases hfront with
    | none => exact hclear.left c hc
    | one u v =>
      rcases List.eq_nil_or_concat v with rfl | ⟨v, d, rfl⟩
      · have hgroup := h u inside ('(' :: (inner' ++ ')' :: back')) (by simpa using hold)
          (depth_plain hinside 0)
        exact absurd hbalanced' (hgroup.2 inner' back' rfl)
      · have hlast : ∀ w w' : List Char, (w ++ (w' ++ v.concat d)).getLast? = some d :=
          fun w w' => by simp
        rw [hlast] at hc
        exact hclear.left c (by rw [hlast]; exact hc)
  · cases hback with
    | none => exact hclear.right c hc
    | one u v =>
      cases u with
      | nil => exact absurd (depth_plain hinside 0) (htouch inside v (by simp))
      | cons d u => exact hclear.right c (by simpa using hc)
  · rintro inner₂ back₂ rfl hinner₂
    have hback' : Replaced literal ('(' :: (inside ++ [')']))
      ([] ++ '(' :: (inner₂ ++ ')' :: back₂)) back' := hback
    obtain ⟨front', rest, rfl, hfront', hrest⟩ := hback'.cut hne hliteral.1
    obtain ⟨inner₂', back₂', rfl, hinner₂', -⟩ := hrest.cut hne hliteral.2
    rw [hfront'.nil hne] at htouch
    exact htouch inner₂' back₂' rfl (hbalanced hinner₂' hinner₂)

/-! ## Steps of an evaluation -/

theorem isNameChar_of_isBlank {c : Char} (h : Text.isBlank c = true) : isNameChar c = false := by
  by_contra hc
  rw [isBlank_of_isNameChar (by simpa using hc)] at h
  cases h

theorem isNameChar_of_operator {c : Char} (h : operators.contains c = true) :
    isNameChar c = false := by
  rcases mem_operators h with rfl | rfl | rfl | rfl <;> decide

theorem isNameChar_of_symbol (op : Comparison) : ∀ c ∈ op.symbol.toList, isNameChar c = false := by
  have hall : (op.symbol.toList.all fun c => !isNameChar c) = true := by
    cases op <;> decide
  simpa using hall

/-- What stands on the two sides of characters that belong to no name. -/
theorem within_sides {mid : List Char} (hne : mid ≠ []) (hmid : ∀ c ∈ mid, isNameChar c = false)
    (as bs : List Char) : Within as (as ++ mid ++ bs) ∧ Within bs (as ++ mid ++ bs) := by
  obtain ⟨c, rest, rfl⟩ := List.exists_cons_of_ne_nil hne
  refine ⟨⟨[], c :: rest ++ bs, by simp, ⟨by simp, fun d hd => ?_⟩⟩,
    ⟨as ++ c :: rest, [], by simp, ⟨fun d hd => ?_, by simp⟩⟩⟩
  · rw [List.cons_append, List.head?_cons, Option.mem_some_iff] at hd
    exact hmid d (hd ▸ List.mem_cons_self)
  · rw [List.getLast?_append_of_ne_nil _ (List.cons_ne_nil c rest)] at hd
    exact hmid d (List.mem_of_getLast? hd)

theorem within_cut {c : Char} (hc : isNameChar c = false) (as bs : List Char) :
    Within as (as ++ c :: bs) ∧ Within bs (as ++ c :: bs) := by
  have hsides := within_sides (List.cons_ne_nil c []) (fun d hd => List.mem_singleton.1 hd ▸ hc)
    as bs
  rwa [List.append_assoc, List.singleton_append] at hsides

theorem within_trim (cs : List Char) : Within (mask (Text.trim cs)) (mask cs) := by
  obtain ⟨front, back, hmask, houter⟩ := mask_trim cs
  refine ⟨front, back, hmask, .of_forall fun c hc => ?_⟩
  rcases houter c hc with hblank | rfl
  · exact isNameChar_of_isBlank hblank
  · decide

theorem within_operation {cs : List Char} {op : Char} {i : Nat}
    (h : mainOperator? (mask cs) = some (op, i)) :
    Within (mask (cs.take i)) (mask cs) ∧ Within (mask (cs.drop (i + 1))) (mask cs) := by
  have hop := isNameChar_of_operator (getElem?_of_mainOperator? h).2
  have hsides := within_cut hop (mask (cs.take i)) (mask (cs.drop (i + 1)))
  rwa [← mask_operation h] at hsides

theorem within_signed {cs rest : List Char} {sign : Char} (h : signed? cs = some (sign, rest)) :
    Within (mask rest) (mask cs) := by
  obtain ⟨hop, hmask⟩ := mask_signed h
  rw [hmask]
  exact (within_cut (isNameChar_of_operator hop) [] (mask rest)).2

theorem within_comparison {cs : List Char} {op : Comparison} {i : Nat}
    (h : mainComparison? (mask cs) = some (op, i)) :
    Within (mask (cs.take i)) (mask cs) ∧
      Within (mask (cs.drop (i + op.symbol.length))) (mask cs) := by
  have hsides := within_sides (symbol_ne_nil op) (isNameChar_of_symbol op) (mask (cs.take i))
    (mask (cs.drop (i + op.symbol.length)))
  rwa [← mask_comparison h] at hsides

theorem within_group {cs before inside after : List Char}
    (h : lastGroup? cs = some (before, inside, after)) : Within (mask inside) (mask cs) := by
  refine ⟨mask before ++ ['('], ')' :: mask after, by rw [(mask_group h).1]; simp, ?_, ?_⟩
  · intro c hc
    rw [List.getLast?_concat, Option.mem_some_iff] at hc
    exact hc ▸ (by decide)
  · intro c hc
    rw [List.head?_cons, Option.mem_some_iff] at hc
    exact hc ▸ (by decide)

theorem literal_ne_nil {v : Value} {literal : List Char} (h : Literal.format v = .ok literal)
    (hfinite : ∀ x, v = .number x → x.IsFinite) : literal ≠ [] := by
  rintro rfl
  match v with
  | .null => cases h
  | .bool true => cases h
  | .bool false => cases h
  | .number x =>
    obtain ⟨negative, n, e, rfl⟩ := hfinite x rfl
    have hread := Decimal.read?_plain negative n e
    rw [show (Decimal.finite negative n e).plain = [] from Except.ok.inj h] at hread
    cases hread
  | .text s =>
    rw [Literal.format] at h
    split at h
    · next cs hcs =>
      obtain ⟨q, -, -, rfl⟩ := exists_quoted hcs
      cases h
    · cases h
  | .list items => cases h

/-- **A literal in the place of the last group** touches nothing, if the groups of the text do not,
and makes no name together with what stands next to it. -/
theorem splice_group {cs before inside after literal : List Char} {v : Value}
    (hgroup : lastGroup? cs = some (before, inside, after)) (hcs : Apart (mask cs))
    (hliteral : Literal.format v = .ok literal) (hfinite : ∀ x, v = .number x → x.IsFinite) :
    Clear (mask before) (mask after) ∧ Apart (mask (before ++ literal ++ after)) := by
  have hbefore := (lastGroup?_eq_some hgroup).2.1
  have hshows := shows_literal hliteral
  obtain ⟨hmask, hinside⟩ := mask_group hgroup
  have hmask : mask cs = mask before ++ '(' :: (mask inside ++ ')' :: mask after) := by
    simpa using hmask
  have hplain : Plain (mask literal) :=
    ⟨fun hc => ne_of_class (hshows.all _ hc) (by decide) rfl,
      fun hc => ne_of_class (hshows.all _ hc) (by decide) rfl⟩
  have hne : mask literal ≠ [] := by
    rw [← List.length_pos_iff_ne_nil, length_mask, List.length_pos_iff_ne_nil]
    exact literal_ne_nil hliteral hfinite
  rw [hmask] at hcs
  refine ⟨(hcs _ _ _ rfl (depth_plain hinside 0)).1, ?_⟩
  rw [List.append_assoc, mask_append hbefore, mask_append hshows.closed, ← List.append_assoc]
  exact hcs.splice hinside hplain hne

/-! ## Parts between connectives -/

/-- A part lies between blanks, or at the start or the end of the text. -/
theorem exists_of_mem_splitFrom {k : Connective} {front : List Char} {X P : Masked}
    {part : List Char} (h : part ∈ splitFrom k front X) (hP : P.map Prod.fst = front.reverse) :
    ∃ A Q B : Masked, P ++ X = A ++ Q ++ B ∧ Q.map Prod.fst = part ∧
      (∀ x ∈ A.getLast?, Text.isBlank x.2 = true) ∧ ∀ x ∈ B.head?, Text.isBlank x.2 = true := by
  fun_induction splitFrom k front X generalizing P with
  | case1 front X rest hrest ih =>
    obtain ⟨b, w, b', rfl, ⟨hbne, hb⟩, -, ⟨hb'ne, hb'⟩⟩ := exists_of_afterConnective? hrest
    rcases List.mem_cons.1 h with rfl | h
    · refine ⟨[], P, b ++ (w ++ (b' ++ rest)), rfl, hP, by simp, fun x hx => ?_⟩
      obtain ⟨y, ys, rfl⟩ := List.exists_cons_of_ne_nil hbne
      rw [List.cons_append, List.head?_cons, Option.mem_some_iff] at hx
      exact hx ▸ hb y.2 (by simp)
    · obtain ⟨A, Q, B, rfl, hQ, hA, hB⟩ := ih (P := []) h rfl
      refine ⟨P ++ (b ++ w) ++ b' ++ A, Q, B, by simp, hQ, fun x hx => ?_, hB⟩
      rw [List.getLast?_append, Option.mem_def, Option.or_eq_some_iff,
        List.getLast?_append_of_ne_nil _ hb'ne] at hx
      rcases hx with hx | ⟨-, hx⟩
      · exact hA x hx
      · exact hb' x.2 (List.mem_map_of_mem (List.mem_of_getLast? hx))
  | case2 front hnone =>
    rw [List.mem_singleton] at h
    exact ⟨[], P, [], by simp, h ▸ hP, by simp, by simp⟩
  | case3 front x X hnone ih =>
    obtain ⟨A, Q, B, heq, hQ, hA, hB⟩ := ih (P := P ++ [x]) h (by simp [hP])
    exact ⟨A, Q, B, by simpa using heq, hQ, hA, hB⟩

theorem within_of_mem_parts {k : Connective} {cs part : List Char} (h : part ∈ parts k cs) :
    Within (mask part) (mask cs) := by
  obtain ⟨untrimmed, hmem, rfl⟩ := List.mem_map.1 h
  obtain ⟨A, Q, B, heq, rfl, hA, hB⟩ := exists_of_mem_splitFrom (P := []) hmem rfl
  rw [List.nil_append, List.append_assoc] at heq
  have hcs : cs = A.map Prod.fst ++ (Q.map Prod.fst ++ B.map Prod.fst) := by
    rw [← List.map_append, ← List.map_append, ← heq, map_fst_withMask]
  have hmask : mask cs = A.map Prod.snd ++ (Q.map Prod.snd ++ B.map Prod.snd) := by
    rw [← List.map_append, ← List.map_append, ← heq, map_snd_withMask]
  have hclosed : quoteAfter none (A.map Prod.fst) = none := by
    rcases List.eq_nil_or_concat A with rfl | ⟨A, x, rfl⟩
    · rfl
    · -- The part follows a blank that shows, behind which no quote is open.
      have hblank := hA x (by simp)
      have hfiller : x.2 ≠ filler := ne_of_class hblank (by decide)
      have hshown : (mask cs)[(A.map Prod.fst).length]? = some x.2 := by
        rw [hmask]
        simp
      obtain ⟨hfront, hx⟩ := quoteAfter_take_mask hshown (isQuote_of_isBlank hblank) hfiller
      rw [hcs] at hfront hx
      simp only [List.concat_eq_append, List.map_append, List.append_assoc,
        List.take_left] at hfront
      have hx : x.1 = x.2 := by simpa using hx
      rw [List.concat_eq_append, List.map_append, quoteAfter_append, hfront]
      exact stepQuote_of_isBlank (hx ▸ hblank) none rfl
  obtain ⟨back, hback⟩ := mask_prefix (Q.map Prod.fst) (B.map Prod.fst)
  have hshown : mask (Q.map Prod.fst) = Q.map Prod.snd := by
    have hparts := hmask
    rw [hcs, mask_append hclosed, hback] at hparts
    exact (List.append_inj (List.append_inj hparts (by simp)).2 (by simp)).1
  refine (within_trim _).trans ⟨A.map Prod.snd, B.map Prod.snd, ?_, ?_, ?_⟩
  · rw [hmask, hshown, List.append_assoc]
  · intro c hc
    rw [List.getLast?_map] at hc
    obtain ⟨x, hx, rfl⟩ := Option.mem_map.1 hc
    exact isNameChar_of_isBlank (hA x hx)
  · intro c hc
    rw [List.head?_map] at hc
    obtain ⟨x, hx, rfl⟩ := Option.mem_map.1 hc
    exact isNameChar_of_isBlank (hB x hx)

end BusinessRules.Expression

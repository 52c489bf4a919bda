import BusinessRules.Proofs.Expression.Balance
import BusinessRules.Proofs.Expression.Masking
import BusinessRules.Proofs.Expression.Refinement

/-!
# Termination

The evaluator takes a text apart and evaluates what it gets in the same way: at the logical level
the parts between connectives, at the arithmetic level the inside of a group, the text with the
literal of its value, the operands of an operator, and what a sign applies to.  Nothing is assumed
about the text: quote marks and parentheses may be unmatched, and names may stand for any text.

A part of a split is shorter than the text.  At the arithmetic level the length is no measure, as
the literal of a value may be longer than the group in whose place it stands; but neither the
literal nor what it puts next to each other shows an opening parenthesis that was not there, so one
parenthesis less shows.  Otherwise no parenthesis shows, and the text is cut in front of its last
character or behind its first one.

## Main definitions

* `Recursion`: a function that is computed by a well-founded recursion
* `arithmeticStep`, `conditionStep`: one level of the evaluator, the levels below being given
* `Asks`, `IsPart`: the texts that one level evaluates again
* `rank`: the opening parentheses that a text shows, and its length

## Main statements

* `rank_lt_of_asks`: what is evaluated again is smaller
* `evaluate_recursion`: both levels are computed by well-founded recursions
-/

namespace BusinessRules.Expression

/-! ## Recursions -/

/-- A function is computed by a well-founded recursion: one step of it, which is given the function,
asks for values at smaller arguments only, and nothing else that it is given matters. -/
structure Recursion {α β : Type} (f : α → β) (step : (α → β) → α → β)
    (asks : (α → β) → α → α → Prop) (below : α → α → Prop) : Prop where
  wellFounded : WellFounded below
  decreases : ∀ {self a b}, asks self a b → below b a
  congr : ∀ {self self' a}, (∀ b, asks self a b → self b = self' b) → step self a = step self' a
  solves : ∀ a, f a = step f a

/-- Only one function solves the equation of a recursion. -/
theorem Recursion.eq_of_solves {α β : Type} {f g : α → β} {step : (α → β) → α → β}
    {asks : (α → β) → α → α → Prop} {below : α → α → Prop} (h : Recursion f step asks below)
    (hg : ∀ a, g a = step g a) : g = f := by
  funext a
  induction a using h.wellFounded.induction with
  | _ a ih =>
    rw [hg, h.solves]
    exact h.congr fun b hb => ih b (h.decreases hb)

/-! ## Arithmetic -/

/-- One level of the evaluation of an arithmetic text: a group is replaced, or the text is taken
apart at an operator or behind a sign, and what results is evaluated by the given function. -/
def arithmeticStep (p : Precision) (names : Names) (self : List Char → Outcome Value)
    (text : List Char) : Outcome Value :=
  let cs := Text.trim text
  if hasGroup cs then
    match lastGroup? cs with
    | none => .error (.unmatchedParenthesis (String.ofList cs))
    | some (before, inside, after) =>
      match self inside with
      | .error f => .error f
      | .ok v =>
        match Literal.format v with
        | .error _ => .error (.ungroupable (String.ofList cs))
        | .ok literal => self (before ++ literal ++ after)
  else if (mask cs).contains ')' then .error (.unmatchedParenthesis (String.ofList cs))
  else
    match mainOperator? (mask cs) with
    | some (op, i) =>
      match self (cs.take i) with
      | .error f => .error f
      | .ok left =>
        match self (cs.drop (i + 1)) with
        | .error f => .error f
        | .ok right => operate p op left right
    | none =>
      if cs.isEmpty then .error .missingOperand
      else
        match Literal.read? cs with
        | .error f => .error f
        | .ok (some v) => .ok v
        | .ok none =>
          match signed? cs with
          | some (sign, rest) =>
            match self rest with
            | .error f => .error f
            | .ok v => applySign p sign v
          | none => resolve names cs

/-- The texts that one level of the evaluation of an arithmetic text evaluates again, where a given
function has the values of the insides of groups. -/
inductive Asks (self : List Char → Outcome Value) (text : List Char) : List Char → Prop where
  | inside {before inside after : List Char}
      (group : lastGroup? (Text.trim text) = some (before, inside, after)) : Asks self text inside
  | pasted {before inside after literal : List Char} {v : Value}
      (group : lastGroup? (Text.trim text) = some (before, inside, after))
      (value : self inside = .ok v) (written : Literal.format v = .ok literal) :
      Asks self text (before ++ literal ++ after)
  | left {op : Char} {i : Nat} (flat : hasGroup (Text.trim text) = false)
      (main : mainOperator? (mask (Text.trim text)) = some (op, i)) :
      Asks self text ((Text.trim text).take i)
  | right {op : Char} {i : Nat} (flat : hasGroup (Text.trim text) = false)
      (main : mainOperator? (mask (Text.trim text)) = some (op, i)) :
      Asks self text ((Text.trim text).drop (i + 1))
  | signed {sign : Char} {rest : List Char} (flat : hasGroup (Text.trim text) = false)
      (sign_eq : signed? (Text.trim text) = some (sign, rest)) : Asks self text rest

/-- The opening parentheses that a trimmed text shows, and its length. -/
def rank (text : List Char) : Nat × Nat := (openings (Text.trim text), (Text.trim text).length)

/-- The lexicographic order of ranks. -/
def RankBelow (t text : List Char) : Prop := Prod.Lex (· < ·) (· < ·) (rank t) (rank text)

theorem rankBelow_wellFounded : WellFounded RankBelow :=
  InvImage.wf rank (Prod.lex ⟨_, wellFounded_lt⟩ ⟨_, wellFounded_lt⟩).wf

section Asks

variable {cs before inside after literal : List Char} {v : Value}

/-- **A literal in the place of the last group** leaves one opening parenthesis less, whatever it
holds. -/
theorem openings_paste (hgroup : lastGroup? cs = some (before, inside, after))
    (hliteral : Literal.format v = .ok literal) :
    openings (before ++ literal ++ after) + 1 = openings cs := by
  obtain ⟨hmask, hinside, -⟩ := mask_group hgroup
  obtain ⟨hcount, hclosed⟩ := mask_literal hliteral
  obtain ⟨-, hbefore, -⟩ := lastGroup?_eq_some hgroup
  rw [openings_append (by rw [quoteAfter_append, hbefore, hclosed]), openings_append hbefore]
  rw [openings, openings, openings, openings, hmask, hcount]
  simp only [List.count_append, List.count_cons, List.count_eq_zero.2 hinside]
  simp
  omega

/-- A text that shows no more opening parentheses, and is shorter, is below. -/
theorem rankBelow_of_length_lt {t text : List Char}
    (hopenings : openings t ≤ openings (Text.trim text))
    (hlength : t.length < (Text.trim text).length) : RankBelow t text := by
  have htrim := Text.length_trim_le t
  rw [RankBelow, rank, rank, Prod.lex_def]
  rcases Nat.lt_or_eq_of_le (Nat.le_trans (openings_trim t) hopenings) with hlt | heq
  · exact .inl hlt
  · exact .inr ⟨heq, by omega⟩

theorem rankBelow_of_openings_lt {t text : List Char}
    (h : openings t < openings (Text.trim text)) : RankBelow t text := by
  rw [RankBelow, rank, rank, Prod.lex_def]
  exact .inl (Nat.lt_of_le_of_lt (openings_trim t) h)

/-- **What is evaluated again is smaller**: fewer opening parentheses show, or as many in a shorter
text. -/
theorem rank_lt_of_asks {self : List Char → Outcome Value} {text t : List Char}
    (h : Asks self text t) : RankBelow t text := by
  cases h with
  | inside group =>
    obtain ⟨hmask, hinside, -⟩ := mask_group group
    refine rankBelow_of_openings_lt ?_
    rw [openings, openings, hmask, List.count_eq_zero.2 hinside]
    simp
  | pasted group value written =>
    have := openings_paste group written
    exact rankBelow_of_openings_lt (by omega)
  | @left _ i flat main =>
    have := lt_of_mainOperator? main
    refine rankBelow_of_length_lt ?_ (by rw [List.length_take]; omega)
    have hsplit := openings_append_le ((Text.trim text).take i) ((Text.trim text).drop i)
    rwa [List.take_append_drop] at hsplit
  | right flat main =>
    have := lt_of_mainOperator? main
    refine rankBelow_of_length_lt ?_ (by rw [List.length_drop]; omega)
    rw [openings, openings, mask_operation main, List.count_append, List.count_cons]
    omega
  | signed flat sign_eq =>
    refine rankBelow_of_length_lt ?_ (length_of_signed? sign_eq)
    rw [openings, openings, (mask_signed sign_eq).2, List.count_cons]
    omega

end Asks

section Step

variable {p : Precision} {names : Names}

/-- Nothing but the values of the texts that are evaluated again matters. -/
theorem arithmeticStep_congr {self self' : List Char → Outcome Value} {text : List Char}
    (h : ∀ t, Asks self text t → self t = self' t) :
    arithmeticStep p names self text = arithmeticStep p names self' text := by
  rw [arithmeticStep, arithmeticStep]
  by_cases hgroup : hasGroup (Text.trim text) = true
  · rw [if_pos hgroup, if_pos hgroup]
    split
    · rfl
    · next before inside after hlast =>
      rw [← h inside (.inside hlast)]
      split
      · rfl
      · next v hv =>
        split
        · rfl
        · next literal hliteral => exact h _ (.pasted hlast hv hliteral)
  · rw [if_neg hgroup, if_neg hgroup]
    have hflat : hasGroup (Text.trim text) = false := by simpa using hgroup
    split
    · rfl
    · split
      · next op i hop =>
        rw [← h _ (.left hflat hop), ← h _ (.right hflat hop)]
      · split
        · rfl
        · split
          · rfl
          · rfl
          · split
            · next sign rest hsign => rw [← h _ (.signed hflat hsign)]
            · rfl

theorem evaluateFlat_nil : evaluateFlat p names [] = .error .missingOperand := by
  rw [evaluateFlat]
  rfl

/-- **The evaluator of arithmetic texts solves its equation.** -/
theorem evaluateArithmetic_eq_step (text : List Char) :
    evaluateArithmetic p names text =
      arithmeticStep p names (evaluateArithmetic p names) text := by
  rw [arithmeticStep]
  split
  · next hgroup =>
    rw [evaluateArithmetic]
    split
    · next hlast =>
      rw [evaluateGroups, if_pos hgroup]
      split
      · rfl
      · next h =>
        rw [hlast] at h
        cases h
    · next before inside after hlast =>
      rw [evaluateGroups_group hgroup hlast,
        evaluateArithmetic_of_no_opening (mask_group hlast).2.1]
      rfl
  · next hgroup =>
    have hopen : '(' ∉ mask (Text.trim text) := by simpa [hasGroup] using hgroup
    have hflat : evaluateArithmetic p names text = evaluateFlat p names (Text.trim text) := by
      rw [evaluateArithmetic, evaluateGroups, if_neg hgroup]
    rw [hflat]
    cases hclose : (mask (Text.trim text)).contains ')' with
    | true => rw [evaluateFlat, hclose, if_pos rfl, if_pos rfl]
    | false =>
      rw [if_neg Bool.false_ne_true]
      rcases hop : mainOperator? (mask (Text.trim text)) with _ | ⟨op, i⟩
      · by_cases hempty : Text.trim text = []
        · rw [hempty, List.isEmpty_nil, if_pos rfl, evaluateFlat_nil]
        · rw [evaluateFlat_operand hclose hop hempty, if_neg (by simpa using hempty)]
          rcases Literal.read? (Text.trim text) with f | _ | v
          · rfl
          · rcases hsign : signed? (Text.trim text) with _ | ⟨sign, rest⟩
            · rfl
            · rw [(mask_signed hsign).2, List.mem_cons, not_or] at hopen
              simp only
              rw [evaluateArithmetic_of_no_opening hopen.2]
              cases evaluateFlat p names (Text.trim rest) <;> rfl
          · rfl
      · rw [mask_operation hop, List.mem_append, List.mem_cons, not_or, not_or] at hopen
        have hsplit : evaluateFlat p names (Text.trim text) = _ :=
          evaluateFlat_operation hclose hop
        rw [← evaluateArithmetic_of_no_opening hopen.1,
          ← evaluateArithmetic_of_no_opening hopen.2.2] at hsplit
        exact hsplit

theorem evaluateArithmetic_recursion : Recursion (evaluateArithmetic p names)
    (arithmeticStep p names) Asks RankBelow where
  wellFounded := rankBelow_wellFounded
  decreases := rank_lt_of_asks
  congr := arithmeticStep_congr
  solves := evaluateArithmetic_eq_step

end Step

/-! ## The parts of a split -/

/-- The parts of a text between the occurrences of a connective, with the blanks around them. -/
def pieces (k : Connective) (cs : List Char) : List (List Char) := splitFrom k [] (withMask cs)

/-- A part of a split: a stretch of the masked text, at its start or behind a connective, in which
no connective begins. -/
structure Stretch (k : Connective) (whole : Masked) (part : List Char) where
  before : Masked
  shown : Masked
  after : Masked
  whole_eq : whole = before ++ (shown ++ after)
  part_eq : shown.map Prod.fst = part
  begins : before = [] ∨ ∃ front connective, before = front ++ connective ∧
    afterConnective? k (connective ++ (shown ++ after)) = some (shown ++ after)
  unbroken : ∀ front back, shown = front ++ back → back ≠ [] →
    afterConnective? k (back ++ after) = none

theorem splitFrom_ne_nil (k : Connective) (front : List Char) (X : Masked) :
    splitFrom k front X ≠ [] := by
  fun_induction splitFrom k front X with
  | case1 => exact List.cons_ne_nil _ _
  | case2 => exact List.cons_ne_nil _ _
  | case3 front x X hnone ih => exact ih

/-- **A split yields stretches of the text.**  One that is not the whole text is one of several. -/
theorem exists_stretch {k : Connective} {F X : Masked} {part : List Char}
    (hF : ∀ front back, F = front ++ back → back ≠ [] → afterConnective? k (back ++ X) = none)
    (h : part ∈ splitFrom k (F.map Prod.fst).reverse X) : ∃ s : Stretch k (F ++ X) part,
      s.before ++ s.after ≠ [] ↔ 1 < (splitFrom k (F.map Prod.fst).reverse X).length := by
  generalize hfront : (F.map Prod.fst).reverse = front at h ⊢
  fun_induction splitFrom k front X generalizing F with
  | case1 front X rest hrest ih =>
    have hseveral : 1 < (front.reverse :: splitFrom k [] rest).length := by
      have := List.length_pos_iff.2 (splitFrom_ne_nil k [] rest)
      rw [List.length_cons]
      omega
    obtain ⟨separator, Y, rfl, hY⟩ := exists_separator hrest
    have hYne : Y ≠ [] := by
      rintro rfl
      exact separator.text_ne_nil hY.symm
    rcases List.mem_cons.1 h with rfl | h
    · refine ⟨⟨[], F, Y ++ rest, rfl, ?_, .inl rfl, hF⟩, iff_of_true ?_ hseveral⟩
      · rw [← hfront, List.reverse_reverse]
      · simp [hYne]
    · obtain ⟨s, -⟩ := ih (F := []) (fun front back heq hne => by simp_all) rfl h
      obtain ⟨before, shown, after, whole_eq, part_eq, begins, unbroken⟩ := s
      rw [List.nil_append] at whole_eq
      refine ⟨⟨F ++ Y ++ before, shown, after, by rw [whole_eq]; simp, part_eq, .inr ?_, unbroken⟩,
        iff_of_true (by simp [hYne]) hseveral⟩
      rcases begins with rfl | ⟨front', connective, rfl, hfound⟩
      · rw [List.nil_append] at whole_eq
        exact ⟨F, Y, List.append_nil _, whole_eq ▸ hrest⟩
      · exact ⟨F ++ Y ++ front', connective, by simp, hfound⟩
  | case2 front hnone =>
    rw [List.mem_singleton] at h
    refine ⟨⟨[], F, [], rfl, ?_, .inl rfl, hF⟩, iff_of_false (by simp) (by simp)⟩
    rw [h, ← hfront, List.reverse_reverse]
  | case3 front x X hnone ih =>
    have hF' : ∀ front back, F ++ [x] = front ++ back → back ≠ [] →
        afterConnective? k (back ++ X) = none := by
      intro front' back heq hne
      rcases List.eq_nil_or_concat back with rfl | ⟨back, y, rfl⟩
      · exact absurd rfl hne
      · rw [List.concat_eq_append, ← List.append_assoc] at heq
        obtain ⟨hFront, hx⟩ := List.append_inj' heq rfl
        cases hx
        rw [List.concat_eq_append, List.append_assoc, List.singleton_append]
        rcases back with _ | ⟨y, back⟩
        · exact hnone
        · exact hF front' (y :: back) hFront (List.cons_ne_nil _ _)
    have hfront' : ((F ++ [x]).map Prod.fst).reverse = x.1 :: front := by simp [hfront]
    obtain ⟨s, hs⟩ := ih hF' hfront' h
    obtain ⟨before, shown, after, whole_eq, part_eq, begins, unbroken⟩ := s
    exact ⟨⟨before, shown, after, by rw [← whole_eq]; simp, part_eq, begins, unbroken⟩, hs⟩

namespace Stretch

variable {k : Connective} {cs part : List Char} (s : Stretch k (withMask cs) part)

include s

/-- No quote is open where a part begins. -/
theorem closed : quoteAfter none (cs.take s.before.length) = none := by
  rcases s.begins with hbefore | ⟨front, connective, hbefore, hfound⟩
  · rw [hbefore]
    rfl
  · have hcut : Cut cs front.length (cs.length - (s.shown ++ s.after).length) := by
      refine .connective k (Eq.trans ?_ hfound)
      refine congrArg _ ((congrArg (List.drop front.length) s.whole_eq).trans ?_)
      rw [hbefore, List.append_assoc, List.drop_left]
    have hlength := congrArg List.length s.whole_eq
    simp only [withMask, List.length_zip, length_mask, Nat.min_self, List.length_append] at hlength
    have hclosed := hcut.closed.2
    rwa [List.length_append, show cs.length - (s.shown.length + s.after.length) = s.before.length by
      omega] at hclosed

theorem slice : ((withMask cs).drop s.before.length).take s.shown.length = s.shown := by
  have hdrop : (withMask cs).drop s.before.length = s.shown ++ s.after :=
    (congrArg (List.drop s.before.length) s.whole_eq).trans List.drop_left
  rw [hdrop, List.take_left]

theorem part_slice : part = (cs.drop s.before.length).take s.shown.length :=
  calc part = (((withMask cs).drop s.before.length).take s.shown.length).map Prod.fst := by
        rw [s.slice, s.part_eq]
    _ = (cs.drop s.before.length).take s.shown.length := by
        rw [List.map_take, List.map_drop, map_fst_withMask]

/-- **A part shows what it shows in the text.** -/
theorem mask_eq : mask part = s.shown.map Prod.snd :=
  calc mask part = mask ((cs.drop s.before.length).take s.shown.length) :=
        congrArg mask s.part_slice
    _ = ((mask cs).drop s.before.length).take s.shown.length := by
        rw [mask_take, mask_drop s.closed]
    _ = s.shown.map Prod.snd := by
        rw [← map_snd_withMask, ← List.map_drop, ← List.map_take, s.slice]

theorem mask_whole : mask cs = s.before.map Prod.snd ++ mask part ++ s.after.map Prod.snd :=
  calc mask cs = (s.before ++ (s.shown ++ s.after)).map Prod.snd := by
        rw [← s.whole_eq, map_snd_withMask]
    _ = s.before.map Prod.snd ++ mask part ++ s.after.map Prod.snd := by
        rw [s.mask_eq, List.map_append, List.map_append, List.append_assoc]

/-- No connective is left in a part. -/
theorem not_separates : ¬ Separates k (mask part) := by
  rintro ⟨separator, front, back, h⟩
  rw [s.mask_eq, List.append_assoc] at h
  obtain ⟨Q, R, hshown, -, hR⟩ := List.map_eq_append_iff.1 h
  have hne : R ≠ [] := by
    rintro rfl
    exact List.append_ne_nil_of_left_ne_nil separator.text_ne_nil _ hR.symm
  have hfound : (R ++ s.after).map Prod.snd = separator.text ++ (back ++ s.after.map Prod.snd) := by
    simp [hR]
  obtain ⟨Z, hZ⟩ := exists_afterConnective? separator hfound
  rw [s.unbroken Q R hshown hne] at hZ
  cases hZ

end Stretch

section Pieces

variable {k l : Connective} {cs part : List Char}

theorem exists_stretch_of_mem (h : part ∈ pieces k cs) : ∃ s : Stretch k (withMask cs) part,
    s.before ++ s.after ≠ [] ↔ 1 < (pieces k cs).length :=
  exists_stretch (F := []) (by simp) h

/-- **A part of several is shorter than the text.** -/
theorem length_lt_of_mem_pieces (h : part ∈ pieces k cs) (hseveral : 1 < (pieces k cs).length) :
    part.length < cs.length := by
  obtain ⟨s, hs⟩ := exists_stretch_of_mem h
  have hpos := List.length_pos_iff.2 (hs.2 hseveral)
  have hlength := congrArg List.length s.mask_whole
  simp only [length_mask, List.length_append, List.length_map] at hlength hpos
  omega

theorem not_separates_of_mem_pieces (h : part ∈ pieces k cs) : ¬ Separates k (mask part) := by
  obtain ⟨s, -⟩ := exists_stretch_of_mem h
  exact s.not_separates

/-- A connective in a part is one in the text. -/
theorem separates_of_mem_pieces (h : part ∈ pieces k cs) (hl : Separates l (mask part)) :
    Separates l (mask cs) := by
  obtain ⟨s, -⟩ := exists_stretch_of_mem h
  rw [s.mask_whole]
  exact hl.append _ _

/-- A text that is not split has no connective. -/
theorem not_separates_of_pieces (h : ¬ 1 < (pieces k cs).length) : ¬ Separates k (mask cs) := by
  obtain ⟨part, hpart⟩ := List.exists_mem_of_ne_nil _ (splitFrom_ne_nil k [] (withMask cs))
  obtain ⟨s, hs⟩ := exists_stretch_of_mem hpart
  obtain ⟨hbefore, hafter⟩ := List.append_eq_nil_iff.1 (not_not.1 (mt hs.1 h))
  have hwhole := s.mask_whole
  rw [hbefore, hafter, List.map_nil, List.nil_append, List.append_nil] at hwhole
  exact hwhole ▸ s.not_separates

theorem parts_trim_whole (h : ¬ Separates k (mask cs)) :
    parts k (Text.trim cs) = [Text.trim cs] := by
  rw [parts_whole (mt separates_trim h), Text.trim_trim]

end Pieces

/-! ## Conditions -/

/-- One level of the evaluation of a condition: the text is split at the one connective or the
other, and its parts are evaluated by the given function. -/
def conditionStep (p : Precision) (names : Names) (self : List Char → Outcome Bool)
    (text : List Char) : Outcome Bool :=
  let cs := Text.trim text
  if 1 < (pieces .and cs).length then allOf self (pieces .and cs)
  else if 1 < (pieces .or cs).length then anyOf self (pieces .or cs)
  else evaluateComparison p names cs

/-- The parts that one level of the evaluation of a condition evaluates again. -/
inductive IsPart (text : List Char) : List Char → Prop where
  | conjunct {part : List Char} (several : 1 < (pieces .and (Text.trim text)).length)
      (mem : part ∈ pieces .and (Text.trim text)) : IsPart text part
  | disjunct {part : List Char} (single : ¬ 1 < (pieces .and (Text.trim text)).length)
      (several : 1 < (pieces .or (Text.trim text)).length)
      (mem : part ∈ pieces .or (Text.trim text)) : IsPart text part

/-- The order of trimmed texts by length. -/
def Shorter (part text : List Char) : Prop := (Text.trim part).length < (Text.trim text).length

theorem IsPart.length_lt {text part : List Char} (h : IsPart text part) :
    part.length < (Text.trim text).length := by
  cases h with
  | conjunct several mem => exact length_lt_of_mem_pieces mem several
  | disjunct single several mem => exact length_lt_of_mem_pieces mem several

section Step

variable {p : Precision} {names : Names}

theorem conditionStep_congr {self self' : List Char → Outcome Bool} {text : List Char}
    (h : ∀ part, IsPart text part → self part = self' part) :
    conditionStep p names self text = conditionStep p names self' text := by
  rw [conditionStep, conditionStep]
  split
  · next hseveral =>
    rw [allOf_eq_testWhile, allOf_eq_testWhile]
    exact testWhile_eq_of_map
      (List.map_congr_left fun part hpart => h part (.conjunct hseveral hpart))
  · next hsingle =>
    split
    · next hseveral =>
      rw [anyOf_eq_testWhile, anyOf_eq_testWhile]
      exact testWhile_eq_of_map
        (List.map_congr_left fun part hpart => h part (.disjunct hsingle hseveral hpart))
    · rfl

/-- The parts of a text that is no conjunction are comparisons, or the text is one. -/
theorem evaluateBoolean_of_not_separates {text : List Char}
    (h : ¬ Separates .and (mask text)) : evaluateBoolean p names text =
      anyOf (evaluateComparison p names) (parts .or (Text.trim text)) := by
  rw [evaluateBoolean, parts_trim_whole h, allOf_eq_testWhile, testWhile_singleton]

theorem evaluateBoolean_eq_comparison {text : List Char} (hand : ¬ Separates .and (mask text))
    (hor : ¬ Separates .or (mask text)) :
    evaluateBoolean p names text = evaluateComparison p names (Text.trim text) := by
  rw [evaluateBoolean_of_not_separates hand, parts_trim_whole hor, anyOf_eq_testWhile,
    testWhile_singleton]

/-- **The evaluator of conditions solves its equation.**  That disjunctions are not split at `and`
again, and comparisons at nothing, loses nothing, since no part shows a connective that the text did
not show. -/
theorem evaluateBoolean_eq_step (text : List Char) :
    evaluateBoolean p names text = conditionStep p names (evaluateBoolean p names) text := by
  rw [conditionStep]
  split
  · next hseveral =>
    rw [evaluateBoolean, allOf_eq_testWhile, allOf_eq_testWhile, parts, testWhile_map]
    refine testWhile_eq_of_map (List.map_congr_left fun part hpart => ?_)
    exact (evaluateBoolean_of_not_separates (not_separates_of_mem_pieces hpart)).symm
  · next hsingle =>
    have hand := not_separates_of_pieces hsingle
    have htrim : evaluateBoolean p names text =
        anyOf (evaluateComparison p names) (parts .or (Text.trim text)) := by
      rw [evaluateBoolean, parts_whole hand, Text.trim_trim, allOf_eq_testWhile,
        testWhile_singleton]
    rw [htrim]
    split
    · next hseveral =>
      rw [anyOf_eq_testWhile, anyOf_eq_testWhile, parts, testWhile_map]
      refine testWhile_eq_of_map (List.map_congr_left fun part hpart => ?_)
      exact (evaluateBoolean_eq_comparison (mt (separates_of_mem_pieces hpart) hand)
        (not_separates_of_mem_pieces hpart)).symm
    · next hwhole =>
      rw [parts_whole (not_separates_of_pieces hwhole), Text.trim_trim, anyOf_eq_testWhile,
        testWhile_singleton]

theorem evaluateBoolean_recursion : Recursion (evaluateBoolean p names) (conditionStep p names)
    (fun _ => IsPart) Shorter where
  wellFounded := InvImage.wf (fun text => (Text.trim text).length) wellFounded_lt
  decreases := fun h => Nat.lt_of_le_of_lt (Text.length_trim_le _) h.length_lt
  congr := conditionStep_congr
  solves := evaluateBoolean_eq_step

end Step

/-! ## Evaluations -/

/-- Literals have no bound on their lengths, so that the text with the literal of a value in the
place of a group may be longer than the text by any number of characters. -/
theorem exists_longer_paste (p : Precision) (n : Nat) : ∃ (names : Names) (text t : List Char),
    Asks (evaluateArithmetic p names) text t ∧
      (Text.trim text).length + n < (Text.trim t).length := by
  have hinside : '\'' ∉ List.replicate (n + 2) 'a' := by simp
  have hvalue : evaluateArithmetic p
      (fun _ => .ok (some (.text (String.ofList (List.replicate (n + 2) 'a'))))) ['x'] =
        .ok (.text (String.ofList (List.replicate (n + 2) 'a'))) :=
    evaluateArithmetic_leaf (.name ['x'] (by decide))
  have hwritten : Literal.format (.text (String.ofList (List.replicate (n + 2) 'a'))) =
      .ok ('\'' :: List.replicate (n + 2) 'a' ++ ['\'']) := by
    simp [Literal.format, Literal.quoted?]
  have hgroup : lastGroup? (Text.trim "(x)".toList) = some ([], ['x'], []) := by decide
  have htext : Text.trim "(x)".toList = "(x)".toList := by decide
  refine ⟨_, "(x)".toList, _, .pasted hgroup hvalue hwritten, ?_⟩
  have htight := (Leaf.quoted '\'' (List.replicate (n + 2) 'a') (by decide) hinside).tight.trim_self
  rw [Leaf.text] at htight
  rw [List.nil_append, List.append_nil, htight, htext]
  simp
  omega

/-- **The evaluation of every text ends**, for names that stand for anything.  Both the arithmetic
and the logical level are computed by well-founded recursions.  At the arithmetic level, what is
evaluated again shows fewer opening parentheses, or as many in a shorter text: a literal in the
place of a group leaves one less, though the text may become longer by any number of characters.  At
the logical level, each part of a split is shorter than the text. -/
theorem evaluate_recursion (p : Precision) (names : Names) :
    Recursion (evaluateArithmetic p names) (arithmeticStep p names) Asks RankBelow ∧
    (∀ cs before inside after literal v, lastGroup? cs = some (before, inside, after) →
      Literal.format v = .ok literal → openings (before ++ literal ++ after) + 1 = openings cs) ∧
    (∀ n, ∃ (names' : Names) (text t : List Char), Asks (evaluateArithmetic p names') text t ∧
      (Text.trim text).length + n < (Text.trim t).length) ∧
    Recursion (evaluateBoolean p names) (conditionStep p names) (fun _ => IsPart) Shorter ∧
    ∀ text part, IsPart text part → part.length < (Text.trim text).length :=
  ⟨evaluateArithmetic_recursion, fun _ _ _ _ _ _ => openings_paste, exists_longer_paste p,
    evaluateBoolean_recursion, fun _ _ => IsPart.length_lt⟩

/-- At the arithmetic level, the literal in the place of a group whose value shows parentheses
leaves none to be seen.  At the logical level, a part with an open quote is shorter. -/
theorem evaluate_recursionSample :
    lastGroup? "('((') * 2".toList = some ([], "'(('".toList, " * 2".toList) ∧
      openings "'((' * 2".toList + 1 = openings "('((') * 2".toList ∧
      Asks (evaluateArithmetic ⟨28, by decide, by decide⟩ fun _ => .ok none) "('((') * 2".toList
        "'((' * 2".toList ∧
      RankBelow "'((' * 2".toList "('((') * 2".toList ∧
      IsPart "x and ('y or".toList "('y or".toList ∧
      "('y or".toList.length < (Text.trim "x and ('y or".toList).length := by
  obtain ⟨harithmetic, hopenings, -, -, hparts⟩ :=
    evaluate_recursion ⟨28, by decide, by decide⟩ fun _ => .ok none
  have hgroup : lastGroup? "('((') * 2".toList = some ([], "'(('".toList, " * 2".toList) := by
    decide +kernel
  have hwritten : Literal.format (.text "((") = .ok "'(('".toList := by decide
  have hvalue : evaluateArithmetic ⟨28, by decide, by decide⟩ (fun _ => .ok none) "'(('".toList =
      .ok (.text "((") :=
    evaluateArithmetic_leaf (.quoted '\'' "((".toList (by decide) (by decide))
  have hasks : Asks (evaluateArithmetic ⟨28, by decide, by decide⟩ fun _ => .ok none)
      "('((') * 2".toList "'((' * 2".toList :=
    .pasted (show lastGroup? (Text.trim "('((') * 2".toList) = _ from hgroup) hvalue hwritten
  have hpart : IsPart "x and ('y or".toList "('y or".toList :=
    .conjunct (by decide +kernel) (by decide +kernel)
  exact ⟨hgroup, hopenings _ _ _ _ _ _ hgroup hwritten, hasks, harithmetic.decreases hasks, hpart,
    hparts _ _ hpart⟩

end BusinessRules.Expression

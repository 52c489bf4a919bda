import BusinessRules.Proofs.Expression.Balance
import BusinessRules.Proofs.Expression.Quiet

/-!
# Literals that an evaluation puts in the place of groups

An evaluation replaces one group after the other by the literal of its value.  Here these literals
are listed together with what stands around them.  A text has the value of each text in the list,
and every parenthesis of a text that has a value belongs to a group whose literal is listed.

## Main definitions

* `Paste`, `pastes`: the literals of an evaluation, and what stands around them

## Main statements

* `exists_of_mem_pastes`: the text with a literal is evaluated in the place of the text with a group
* `exists_paste_opening`, `exists_paste_closing`: no parenthesis is left over
-/

namespace BusinessRules.Expression

open Literal (isQuote)

variable {c d : Char} {as bs cs : List Char} {p : Precision} {names : Names}

/-! ## The literals of an evaluation -/

/-- A literal in the place of a group, and what stands in front of it and behind it. -/
structure Paste where
  before : List Char
  literal : List Char
  after : List Char
  deriving DecidableEq

/-- The text with the literal. -/
def Paste.text (x : Paste) : List Char := x.before ++ x.literal ++ x.after

/-- The literals that an evaluation puts in the place of groups, in this order. -/
def pastes (p : Precision) (names : Names) (cs : List Char) : List Paste :=
  match _hgroup : lastGroup? cs with
  | none => []
  | some (before, inside, after) =>
    match evaluateFlat p names (Text.trim inside) with
    | .error _ => []
    | .ok v =>
      match _hliteral : Literal.format v with
      | .error _ => []
      | .ok literal =>
        ⟨before, literal, after⟩ :: pastes p names (Text.trim (before ++ literal ++ after))
termination_by openings cs
decreasing_by
  exact Nat.lt_of_le_of_lt (openings_trim _) (openings_splice _hgroup _hliteral)

/-- The first literal that an evaluation puts in the place of a group. -/
theorem pastes_group {before inside after literal : List Char} {v : Value}
    (hgroup : lastGroup? cs = some (before, inside, after))
    (hinside : evaluateFlat p names (Text.trim inside) = .ok v)
    (hliteral : Literal.format v = .ok literal) :
    pastes p names cs =
      ⟨before, literal, after⟩ :: pastes p names (Text.trim (before ++ literal ++ after)) := by
  rw [pastes]
  split
  · next h =>
    rw [hgroup] at h
    cases h
  · next h =>
    rw [hgroup] at h
    cases h
    simp only [hinside]
    split
    · next h =>
      rw [hliteral] at h
      cases h
    · next h =>
      rw [hliteral] at h
      cases h
      rfl

theorem hasGroup_of_lastGroup? {before inside after : List Char}
    (h : lastGroup? cs = some (before, inside, after)) : hasGroup cs = true := by
  obtain ⟨rfl, hbefore, -⟩ := lastGroup?_eq_some h
  rw [List.append_assoc]
  exact hasGroup_group hbefore

/-- **The text with the literal is evaluated** in the place of the text with the group. -/
theorem exists_of_mem_pastes {x : Paste} (h : x ∈ pastes p names cs) :
    quoteAfter none x.before = none ∧ (∃ v, Literal.format v = .ok x.literal) ∧
      evaluateGroups p names cs = evaluateGroups p names (Text.trim x.text) := by
  fun_induction pastes p names cs with
  | case1 cs hgroup => cases h
  | case2 cs before inside after hgroup f hinside => cases h
  | case3 cs before inside after hgroup v hinside f hliteral => cases h
  | case4 cs before inside after hgroup v hinside literal hliteral ih =>
    have hstep : evaluateGroups p names cs = _ :=
      evaluateGroups_group (hasGroup_of_lastGroup? hgroup) hgroup
    simp only [hinside, hliteral] at hstep
    rcases List.mem_cons.1 h with rfl | h
    · exact ⟨(lastGroup?_eq_some hgroup).2.1, ⟨v, hliteral⟩, hstep⟩
    · obtain ⟨hbefore, hformat, heval⟩ := ih h
      exact ⟨hbefore, hformat, hstep.trans heval⟩

/-- The literals of an evaluation are those of the text with one of them, and earlier ones. -/
theorem pastes_subset {x : Paste} (h : x ∈ pastes p names cs) :
    pastes p names (Text.trim x.text) ⊆ pastes p names cs := by
  fun_induction pastes p names cs with
  | case1 cs hgroup => cases h
  | case2 cs before inside after hgroup f hinside => cases h
  | case3 cs before inside after hgroup v hinside f hliteral => cases h
  | case4 cs before inside after hgroup v hinside literal hliteral ih =>
    rcases List.mem_cons.1 h with rfl | h
    · exact List.subset_cons_self _ _
    · exact List.Subset.trans (ih h) (List.subset_cons_self _ _)

/-- A paste of an evaluation that gives a value is quiet. -/
theorem quiet_of_mem_pastes (hnames : NamesIdentifiers names) {v : Value}
    (h : evaluateGroups p names cs = .ok v) {x : Paste} (hx : x ∈ pastes p names cs) :
    Quiet x.text := by
  obtain ⟨-, -, heval⟩ := exists_of_mem_pastes hx
  exact .of_trim (quiet_of_evaluateGroups hnames (heval.symm.trans h))

/-! ## No parenthesis is left over -/

/-- Of two characters of a text, one stands in front of the other unless they are the same. -/
theorem cut_cases {front : List Char} (h : as ++ c :: bs = front ++ d :: cs) :
    (∃ mid, as = front ++ d :: mid ∧ cs = mid ++ c :: bs) ∨ (as = front ∧ c = d ∧ bs = cs) ∨
      ∃ mid, front = as ++ c :: mid ∧ bs = mid ++ d :: cs := by
  rcases List.append_eq_append_iff.1 h with ⟨mid, rfl, hmid⟩ | ⟨mid, rfl, hmid⟩
  · rcases mid with _ | ⟨e, mid⟩
    · obtain ⟨rfl, rfl⟩ := List.cons.inj hmid
      exact .inr (.inl ⟨by simp, rfl, rfl⟩)
    · obtain ⟨rfl, rfl⟩ := List.cons.inj hmid
      exact .inr (.inr ⟨mid, rfl, rfl⟩)
  · rcases mid with _ | ⟨e, mid⟩
    · obtain ⟨rfl, rfl⟩ := List.cons.inj hmid
      exact .inr (.inl ⟨by simp, rfl, rfl⟩)
    · obtain ⟨rfl, rfl⟩ := List.cons.inj hmid
      exact .inl ⟨mid, rfl, rfl⟩

/-- Where a parenthesis shows in a text, seen from the last group that opens. -/
inductive ParenPlace (front : List Char) (c : Char) (back before inside after : List Char) : Prop
  | inFront (mid : List Char) (front_eq : before = front ++ c :: mid)
    (back_eq : back = mid ++ '(' :: (inside ++ ')' :: after))
  | opening (char_eq : c = '(') (front_eq : before = front)
  | closing (char_eq : c = ')') (back_eq : after = back)
  | behind (mid : List Char) (char_eq : c = ')') (after_eq : after = mid ++ c :: back)
    (closed : quoteAfter none mid = none)

theorem mem_mask_around {front : List Char} (hfront : quoteAfter none front = none)
    (hc : isQuote c = false) (back : List Char) : c ∈ mask (front ++ c :: back) := by
  rw [mask_append hfront, mask_cons hc]
  exact List.mem_append_right _ List.mem_cons_self

/-- Behind a character that is no quote mark, no quote is open if none was open in front of it. -/
theorem closed_behind (hc : isQuote c = false) (has : quoteAfter none as = none)
    (h : quoteAfter none (as ++ c :: bs) = none) : quoteAfter none bs = none := by
  have hstep : stepQuote none c = none := by simp [stepQuote, hc]
  rw [quoteAfter_append, has] at h
  change quoteAfter (stepQuote none c) bs = none at h
  rwa [hstep] at h

/-- **A parenthesis** stands in front of the last group that opens, belongs to it, or closes behind
it. -/
theorem paren_place {front back before inside after : List Char}
    (hgroup : lastGroup? (front ++ c :: back) = some (before, inside, after))
    (hfront : quoteAfter none front = none) (hc : c = '(' ∨ c = ')') :
    ParenPlace front c back before inside after := by
  obtain ⟨hsplit, hbefore, hopened⟩ := lastGroup?_eq_some hgroup
  obtain ⟨-, hinside⟩ := mask_group hgroup
  have hbehind := not_mem_behind hgroup
  have hquote : isQuote c = false := by rcases hc with rfl | rfl <;> decide
  rw [List.append_assoc, List.cons_append] at hsplit
  rcases cut_cases hsplit.symm with ⟨mid, rfl, rfl⟩ | ⟨rfl, rfl, rfl⟩ | ⟨mid, rfl, hmid⟩
  · exact .inFront mid rfl rfl
  · exact .opening rfl rfl
  have hmidclosed := closed_behind (by decide) hbefore hfront
  rcases cut_cases hmid with ⟨mid', rfl, rfl⟩ | ⟨rfl, rfl, rfl⟩ | ⟨mid', rfl, rfl⟩
  · have hshown := mem_mask_around hmidclosed hquote mid'
    rcases hc with rfl | rfl
    · exact absurd hshown hinside.1
    · exact absurd hshown hinside.2
  · exact .closing rfl rfl
  · have hinner : quoteAfter none inside = none := closed_behind (by decide) hbefore hopened
    have hmidclosed' := closed_behind (by decide) hinner hmidclosed
    have hshown := mem_mask_around hmidclosed' hquote back
    rcases hc with rfl | rfl
    · exact absurd hshown hbehind
    · exact .behind mid' rfl rfl hmidclosed'

/-- **Every group that opens is replaced**, and what stands in front of it is as it was. -/
theorem exists_paste_opening {front back : List Char} (hstart : Text.trimStart front = front)
    (hfront : quoteAfter none front = none) {v : Value}
    (h : evaluateGroups p names (front ++ '(' :: back) = .ok v) :
    ∃ x ∈ pastes p names (front ++ '(' :: back), x.before = front := by
  generalize hcs : front ++ '(' :: back = cs at h ⊢
  fun_induction evaluateGroups p names cs generalizing v back with
  | case1 cs hgroup hlast => cases h
  | case2 cs hgroup before inside after hlast f hinside => cases h
  | case3 cs hgroup before inside after hlast w hinside f hliteral => cases h
  | case4 cs hgroup before inside after hlast w hinside literal hliteral ih =>
    rw [pastes_group hlast hinside hliteral]
    subst hcs
    cases paren_place hlast hfront (.inl rfl) with
    | inFront mid front_eq back_eq =>
      have hnext : Text.trim (before ++ literal ++ after) =
          front ++ '(' :: Text.trimEnd (mid ++ literal ++ after) := by
        rw [front_eq, show front ++ '(' :: mid ++ literal ++ after =
          front ++ '(' :: (mid ++ literal ++ after) by simp, Text.trim_around (by decide), hstart]
      obtain ⟨x, hx, hbefore⟩ := ih hnext.symm h
      exact ⟨x, List.mem_cons_of_mem _ hx, hbefore⟩
    | opening char_eq front_eq => exact ⟨_, List.mem_cons_self, front_eq⟩
    | closing char_eq back_eq => cases char_eq
    | behind mid char_eq after_eq closed => cases char_eq
  | case5 cs hgroup =>
    subst hcs
    exact absurd (hasGroup_group hfront) hgroup

/-- **Every parenthesis that closes belongs to a group that is replaced**, and what stands directly
behind it is as it was, unless a group opens there. -/
theorem exists_paste_closing {front back : List Char} (hd : Text.isBlank d = false)
    (hopen : d ≠ '(') (hfront : quoteAfter none front = none) {v : Value}
    (h : evaluateGroups p names (front ++ ')' :: d :: back) = .ok v) :
    ∃ x ∈ pastes p names (front ++ ')' :: d :: back), x.after.head? = some d := by
  generalize hcs : front ++ ')' :: d :: back = cs at h ⊢
  fun_induction evaluateGroups p names cs generalizing v front back with
  | case1 cs hgroup hlast => cases h
  | case2 cs hgroup before inside after hlast f hinside => cases h
  | case3 cs hgroup before inside after hlast w hinside f hliteral => cases h
  | case4 cs hgroup before inside after hlast w hinside literal hliteral ih =>
    rw [pastes_group hlast hinside hliteral]
    subst hcs
    have hnext : ∀ front' back', quoteAfter none front' = none →
        before ++ literal ++ after = front' ++ ')' :: d :: back' →
        ∃ x ∈ (⟨before, literal, after⟩ : Paste) ::
          pastes p names (Text.trim (before ++ literal ++ after)), x.after.head? = some d := by
      intro front' back' hfront' hsplit
      have htrim : Text.trim (before ++ literal ++ after) =
          Text.trimStart front' ++ ')' :: d :: Text.trimEnd back' := by
        rw [hsplit, Text.trim_around (by decide)]
        exact congrArg (Text.trimStart front' ++ ')' :: ·) (Text.trimEnd_around hd [] back')
      obtain ⟨x, hx, hafter⟩ := ih (quoteAfter_trimStart hfront') htrim.symm h
      exact ⟨x, List.mem_cons_of_mem _ hx, hafter⟩
    cases paren_place hlast hfront (.inr rfl) with
    | inFront mid front_eq back_eq =>
      -- Between the two parentheses is at least the character behind the first one.
      rcases mid with _ | ⟨e, mid⟩
      · exact absurd (List.cons.inj back_eq).1 hopen
      · obtain rfl : d = e := (List.cons.inj back_eq).1
        exact hnext front (mid ++ literal ++ after) hfront (by simp [front_eq])
    | opening char_eq front_eq => cases char_eq
    | closing char_eq back_eq => exact ⟨_, List.mem_cons_self, by rw [back_eq]; rfl⟩
    | behind mid char_eq after_eq closed =>
      refine hnext (before ++ literal ++ mid) back ?_ (by simp [after_eq])
      have hbefore := (lastGroup?_eq_some hlast).2.1
      exact quoteAfter_append_closed
        (quoteAfter_append_closed hbefore (shows_literal hliteral).closed) closed
  | case5 cs hgroup =>
    subst hcs
    have hclose : ')' ∈ mask (front ++ ')' :: d :: back) := mem_mask_around hfront (by decide) _
    rw [evaluateFlat, if_pos (by simpa using hclose)] at h
    cases h

end BusinessRules.Expression

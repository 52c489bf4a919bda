import BusinessRules.Proofs.Expression.Identifier
import BusinessRules.Proofs.Expression.Splice

/-!
# Matching parentheses

The evaluator never checks that parentheses match.  It replaces one group after the other, and
fails if an opening or a closing parenthesis is left over.  So a text that has a value has matching
parentheses, and a group whose inside has matching parentheses is evaluated as a unit: its inside
has the value that it has as a text of its own, whatever stands around it.

## Main statements

* `balanced_of_evaluateArithmetic`: the parentheses of a text that has a value match
* `evaluateArithmetic_unit`: a group is evaluated as a unit
-/

namespace BusinessRules.Expression

open Text (Blanks)

variable {p : Precision} {names : Names}

/-! ## Depths -/

/-- Plain texts around a text do not matter for its depth. -/
theorem depth_around {front back : List Char} (hfront : Plain front) (hback : Plain back)
    (masked : List Char) (n : Nat) : depth n (front ++ masked ++ back) = depth n masked := by
  rw [depth_append, depth_append, depth_plain hfront, Option.bind_some]
  cases depth n masked with
  | none => rfl
  | some m => exact depth_plain hback m

/-- Behind an opening parenthesis one more is open. -/
theorem depth_succ {masked : List Char} {n k : Nat} (h : depth n masked = some k) :
    depth (n + 1) masked = some (k + 1) := by
  induction masked generalizing n with
  | nil =>
    cases h
    rfl
  | cons c cs ih =>
    rw [depth, List.foldlM_cons] at h ⊢
    obtain ⟨m, hm, hrest⟩ := Option.bind_eq_some_iff.1 h
    have hstep : stepDepth (n + 1) c = some (m + 1) := by
      unfold stepDepth at hm ⊢
      grind
    rw [hstep]
    exact ih hrest

/-- Where no parenthesis opens, none can close. -/
theorem plain_of_balanced {masked : List Char} (h : Balanced masked) (hopen : '(' ∉ masked) :
    Plain masked := by
  refine ⟨hopen, fun hclose => ?_⟩
  obtain ⟨before, after, rfl, hbefore⟩ := List.eq_append_cons_of_mem hclose
  have hplain : Plain before := ⟨fun hc => hopen (List.mem_append_left _ hc), hbefore⟩
  have hnone : depth 0 (')' :: after) = none := rfl
  rw [Balanced, depth_append, depth_plain hplain, Option.bind_some, hnone] at h
  cases h

/-- Trimming takes no parentheses off. -/
theorem depth_trim (cs : List Char) (n : Nat) :
    depth n (mask (Text.trim cs)) = depth n (mask cs) := by
  obtain ⟨front, back, hmask, houter⟩ := mask_trim cs
  have hplain : ∀ c ∈ front ++ back, isNoParen c = true := by
    intro c hc
    rcases houter c hc with hblank | rfl
    · exact isNoParen_of_isFlatChar c (by simp [isFlatChar, hblank])
    · decide
  rw [List.forall_mem_append] at hplain
  have hnone : ∀ {as : List Char}, (∀ c ∈ as, isNoParen c = true) → Plain as :=
    fun has => ⟨fun hc => absurd (has _ hc) (by decide), fun hc => absurd (has _ hc) (by decide)⟩
  rw [hmask, depth_around (hnone hplain.1) (hnone hplain.2)]

theorem shows_of_plain {cs : List Char} (hclosed : quoteAfter none cs = none)
    (hplain : Plain (mask cs)) : Shows isNoParen cs := by
  refine ⟨hclosed, fun c hc => ?_⟩
  rw [isNoParen, Bool.and_eq_true, bne_iff_ne, bne_iff_ne]
  exact ⟨fun h => hplain.1 (h ▸ hc), fun h => hplain.2 (h ▸ hc)⟩

/-- The inside of the last group shows no parentheses. -/
theorem shows_inside {cs before inside after : List Char}
    (h : lastGroup? cs = some (before, inside, after)) : Shows isNoParen inside := by
  obtain ⟨-, hbefore, hopened⟩ := lastGroup?_eq_some h
  exact shows_of_plain (by rwa [quoteAfter_append, hbefore] at hopened) (mask_group h).2

/-- A literal in the place of a group leaves the depth as it is. -/
theorem depth_splice {cs before inside after literal : List Char} {v : Value}
    (hgroup : lastGroup? cs = some (before, inside, after))
    (hliteral : Literal.format v = .ok literal) (n : Nat) :
    depth n (mask (before ++ literal ++ after)) = depth n (mask cs) := by
  obtain ⟨hmask, hinside⟩ := mask_group hgroup
  have hbefore := (lastGroup?_eq_some hgroup).2.1
  have hshows := shows_literal hliteral
  have hplain : Plain (mask literal) :=
    ⟨fun hc => ne_of_class (hshows.all _ hc) (by decide) rfl,
      fun hc => ne_of_class (hshows.all _ hc) (by decide) rfl⟩
  rw [hmask, List.append_assoc, mask_append hbefore, mask_append hshows.closed,
    show mask before ++ '(' :: mask inside ++ ')' :: mask after =
      mask before ++ ('(' :: (mask inside ++ [')']) ++ mask after) by simp]
  simp only [depth_append, depth_plain hplain, depth_group hinside]

/-! ## Texts with values -/

/-- A text without groups is evaluated without looking for any. -/
theorem evaluateArithmetic_of_no_opening {cs : List Char} (h : '(' ∉ mask cs) :
    evaluateArithmetic p names cs = evaluateFlat p names (Text.trim cs) := by
  have hgroup : hasGroup (Text.trim cs) = false := by
    rw [hasGroup, Bool.eq_false_iff]
    intro hmem
    obtain ⟨front, back, hmask, -⟩ := mask_trim cs
    refine h ?_
    rw [hmask]
    exact List.mem_append_left _ (List.mem_append_right _ (by simpa using hmem))
  rw [evaluateArithmetic, evaluateGroups, hgroup, if_neg Bool.false_ne_true]

/-- **The parentheses of a text that has a value match.** -/
theorem balanced_of_evaluateArithmetic {cs : List Char} {v : Value}
    (h : evaluateArithmetic p names cs = .ok v) : Balanced (mask cs) := by
  rw [Balanced, ← depth_trim]
  rw [evaluateArithmetic] at h
  generalize Text.trim cs = trimmed at h ⊢
  fun_induction evaluateGroups p names trimmed generalizing v with
  | case1 cs hgroup hlast => cases h
  | case2 cs hgroup before inside after hlast f hinside => cases h
  | case3 cs hgroup before inside after hlast w hinside f hliteral => cases h
  | case4 cs hgroup before inside after hlast w hinside literal hliteral ih =>
    rw [← depth_splice hlast hliteral, ← depth_trim]
    exact ih h
  | case5 cs hgroup =>
    have hclose : ')' ∉ mask cs := by
      intro hmem
      rw [evaluateFlat, if_pos (by simpa using hmem)] at h
      cases h
    exact depth_plain ⟨by simpa [hasGroup] using hgroup, hclose⟩ 0

/-! ## Groups as units -/

/-- Where parentheses match, the last group that opens is closed. -/
theorem exists_lastGroup {cs : List Char} (hgroup : hasGroup cs = true)
    (h : Balanced (mask cs)) : ∃ parts, lastGroup? cs = some parts := by
  have hopen : '(' ∈ mask cs := by simpa [hasGroup] using hgroup
  obtain ⟨i, hi⟩ : ∃ i, (occurrences '(' (mask cs)).getLast? = some i := by
    obtain ⟨k, hk⟩ := List.getElem?_of_mem hopen
    have hne : occurrences '(' (mask cs) ≠ [] := List.ne_nil_of_mem (mem_occurrences.2 hk)
    exact ⟨_, List.getLast?_eq_some_getLast hne⟩
  rcases hj : (occurrences ')' (mask cs)).find? (i < ·) with _ | j
  · -- Otherwise nothing closes behind the last parenthesis that opens.
    have hshown := mem_occurrences.1 (List.mem_of_getLast? hi)
    have hcut := eq_append_of_getElem? hshown
    have hplace : ∀ {c}, c ∈ (mask cs).drop (i + 1) → ∃ k, i < k ∧ (mask cs)[k]? = some c := by
      intro c hc
      obtain ⟨k, hk⟩ := List.getElem?_of_mem hc
      rw [List.getElem?_drop] at hk
      exact ⟨i + 1 + k, by omega, hk⟩
    have hplain : Plain ((mask cs).drop (i + 1)) := by
      constructor
      · intro hc
        obtain ⟨k, hik, hk⟩ := hplace hc
        exact absurd (le_of_getLast?_occurrences hi hk) (Nat.not_le_of_lt hik)
      · intro hc
        obtain ⟨k, hik, hk⟩ := hplace hc
        have := List.find?_eq_none.1 hj k (mem_occurrences.2 hk)
        simp [hik] at this
    rw [Balanced, hcut, depth_append] at h
    obtain ⟨m, -, hm⟩ := Option.bind_eq_some_iff.1 h
    have hdeeper : depth m ('(' :: (mask cs).drop (i + 1)) = some (m + 1) :=
      depth_plain hplain (m + 1)
    rw [hdeeper] at hm
    cases hm
  · exact ⟨_, by rw [lastGroup?, hi, Option.bind_some, hj, Option.map_some]⟩

/-- What the evaluation of a group in a text comes to: the fault of its inside, a fault of its own
because the value of its inside has no literal, or the text with that literal in its place. -/
inductive Grouped (p : Precision) (names : Names) (before inside after : List Char) : Prop
  | failed (f g : Fault) (found : evaluateArithmetic p names inside = .error f)
    (same : SameFault g f)
    (result : evaluateArithmetic p names (before ++ '(' :: inside ++ ')' :: after) = .error g)
  | ungroupable (v : Value) (text : String) (found : evaluateArithmetic p names inside = .ok v)
    (lacks : v.hasLiteral = false)
    (result : evaluateArithmetic p names (before ++ '(' :: inside ++ ')' :: after) =
      .error (.ungroupable text))
  | replaced (v : Value) (literal : List Char)
    (found : evaluateArithmetic p names inside = .ok v)
    (written : Literal.format v = .ok literal)
    (result : evaluateArithmetic p names (before ++ '(' :: inside ++ ')' :: after) =
      evaluateArithmetic p names (before ++ literal ++ after))

theorem hasLiteral_of_format_error {v : Value} {f : Fault} (h : Literal.format v = .error f) :
    v.hasLiteral = false := by
  rw [Bool.eq_false_iff]
  intro hliteral
  obtain ⟨cs, hcs⟩ := Value.exists_format_of_hasLiteral hliteral
  rw [hcs] at h
  cases h

/-- No group opens behind the last one. -/
theorem not_mem_behind {cs before inside after : List Char}
    (h : lastGroup? cs = some (before, inside, after)) : '(' ∉ mask after := by
  obtain ⟨hmask, -⟩ := mask_group h
  simp only [lastGroup?, Option.bind_eq_some_iff, Option.map_eq_some_iff, Prod.mk.injEq] at h
  obtain ⟨i, hi, j, -, htake, -, -⟩ := h
  have hlt := lt_of_getElem?_mask (mem_occurrences.1 (List.mem_of_getLast? hi))
  have hlength : before.length = i := by
    rw [← htake, List.length_take]
    omega
  intro hmem
  obtain ⟨k, hk⟩ := List.getElem?_of_mem hmem
  have hplace : (mask cs)[(mask before ++ '(' :: mask inside ++ [')']).length + k]? = some '(' := by
    rw [hmask, show mask before ++ '(' :: mask inside ++ ')' :: mask after =
        (mask before ++ '(' :: mask inside ++ [')']) ++ mask after by simp,
      List.getElem?_append_right (Nat.le_add_right _ _), Nat.add_sub_cancel_left, hk]
  have := le_of_getLast?_occurrences hi hplace
  simp only [List.length_append, length_mask, List.length_cons] at this
  omega

/-- A replacement inside a group. -/
theorem Grouped.of_inside {before inside inside' after : List Char}
    (h : Grouped p names before inside' after)
    (hinside : evaluateArithmetic p names inside = evaluateArithmetic p names inside')
    (hresult : evaluateArithmetic p names (before ++ '(' :: inside ++ ')' :: after) =
      evaluateArithmetic p names (before ++ '(' :: inside' ++ ')' :: after)) :
    Grouped p names before inside after := by
  cases h with
  | failed f g found same result =>
    exact .failed f g (hinside.trans found) same (hresult.trans result)
  | ungroupable v text found lacks result =>
    exact .ungroupable v text (hinside.trans found) lacks (hresult.trans result)
  | replaced v literal found written result =>
    exact .replaced v literal (hinside.trans found) written (hresult.trans result)

/-- A group without groups inside is evaluated as a unit. -/
theorem evaluateArithmetic_innermost {before inside after : List Char}
    (hbefore : quoteAfter none before = none) (hinside : Shows isNoParen inside)
    (hafter : '(' ∉ mask after) : Grouped p names before inside after := by
  have hresult : evaluateArithmetic p names (before ++ '(' :: inside ++ ')' :: after) = _ :=
    evaluateArithmetic_group hbefore hinside hafter
  have hflat : evaluateArithmetic p names inside = evaluateFlat p names (Text.trim inside) :=
    evaluateArithmetic_of_no_opening (not_mem_of_shows hinside).1
  rcases hvalue : evaluateFlat p names (Text.trim inside) with f | v
  · rw [hvalue] at hresult hflat
    exact .failed f f hflat (.inl rfl) hresult
  · rw [hvalue] at hresult hflat
    rcases hliteral : Literal.format v with g | literal
    · simp only [hliteral] at hresult
      exact .ungroupable v _ hflat (hasLiteral_of_format_error hliteral) hresult
    · simp only [hliteral] at hresult
      exact .replaced v literal hflat hliteral hresult

/-- **A group is evaluated as a unit**, if the parentheses inside match and no group opens behind
it. -/
theorem evaluateArithmetic_unit {before inside after : List Char}
    (hbefore : quoteAfter none before = none) (hclosed : quoteAfter none inside = none)
    (hbalanced : Balanced (mask inside)) (hafter : '(' ∉ mask after) :
    Grouped p names before inside after := by
  -- The groups inside are replaced first, in this text and in the inside alone, the last one first.
  induction hn : openings inside using Nat.strong_induction_on generalizing inside with
  | _ n ih =>
    subst hn
    rcases hgroup : hasGroup inside with _ | _
    · have hplain : Plain (mask inside) :=
        plain_of_balanced hbalanced (by simpa [hasGroup] using hgroup)
      exact evaluateArithmetic_innermost hbefore (shows_of_plain hclosed hplain) hafter
    · obtain ⟨⟨front, inner, back⟩, hlast⟩ := exists_lastGroup hgroup hbalanced
      obtain ⟨hinside, hfront, hopened⟩ := lastGroup?_eq_some hlast
      have hinner := shows_inside hlast
      have hback : quoteAfter none back = none := by
        rwa [hinside, quoteAfter_append, hopened] at hclosed
      have hbehind := not_mem_behind hlast
      have hopening : quoteAfter none (before ++ '(' :: front) = none := by
        rw [quoteAfter_append, hbefore]
        exact hfront
      have hclosing : '(' ∉ mask (back ++ ')' :: after) :=
        not_mem_mask_append hback hbehind (not_mem_closing .none hafter)
      have hhere : evaluateArithmetic p names (front ++ '(' :: inner ++ ')' :: back) = _ :=
        evaluateArithmetic_group hfront hinner hbehind
      have hthere : evaluateArithmetic p names
          ((before ++ '(' :: front) ++ '(' :: inner ++ ')' :: (back ++ ')' :: after)) = _ :=
        evaluateArithmetic_group hopening hinner hclosing
      rw [← hinside] at hhere
      rw [show (before ++ '(' :: front) ++ '(' :: inner ++ ')' :: (back ++ ')' :: after) =
        before ++ '(' :: inside ++ ')' :: after by rw [hinside]; simp] at hthere
      rcases hvalue : evaluateFlat p names (Text.trim inner) with f | v
      · rw [hvalue] at hhere hthere
        exact .failed f f hhere (.inl rfl) hthere
      · rw [hvalue] at hhere hthere
        rcases hliteral : Literal.format v with g | literal
        · simp only [hliteral] at hhere hthere
          exact .failed _ _ hhere (.inr ⟨_, _, rfl, rfl⟩) hthere
        · simp only [hliteral] at hhere hthere
          have hshows := shows_literal hliteral
          refine Grouped.of_inside (ih _ (openings_splice hlast hliteral)
            (quoteAfter_append_closed (quoteAfter_append_closed hfront hshows.closed) hback) ?_ rfl)
            hhere ?_
          · rw [Balanced, depth_splice hlast hliteral]
            exact hbalanced
          · rw [hthere]
            simp

end BusinessRules.Expression

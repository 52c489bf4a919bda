import BusinessRules.Value.Literal

/-!
# Masked texts

Operators, keywords and parentheses count only outside quoted literals.  The mask of a text is as
long as the text and shows the same characters outside quotes, and in place of those inside a
filler that is part of no operator.  A quote mark that is never closed hides the rest of the text.

## Main definitions

* `mask`: the masked text
* `quoteAfter`: the quote mark that is open at the end of a text
* `occurrences`: the places where a character shows in a mask

## Main statements

* `mask_append`: a mask falls into the masks of two parts if the first part leaves no quote open
* `quoteAfter_take`: no quote is open in front of a character that shows
-/

namespace BusinessRules.Expression

open Literal (isQuote)

/-- The filler that stands for a character inside quotes. -/
def filler : Char := '\x00'

/-- The quote mark that is open after one more character. -/
def stepQuote (opened : Option Char) (c : Char) : Option Char :=
  match opened with
  | none => if isQuote c then some c else none
  | some q => if c = q then none else some q

/-- What the mask shows in place of a character. -/
def maskChar (opened : Option Char) (c : Char) : Char :=
  match opened with
  | none => c
  | some q => if c = q then c else filler

/-- The mask of a text that follows an open quote mark, or none. -/
def maskFrom : Option Char → List Char → List Char
  | _, [] => []
  | opened, c :: cs => maskChar opened c :: maskFrom (stepQuote opened c) cs

/-- The quote mark that is open at the end of a text. -/
def quoteAfter (opened : Option Char) (cs : List Char) : Option Char := cs.foldl stepQuote opened

/-- The masked text, from one pass over the characters. -/
def mask (cs : List Char) : List Char :=
  (cs.foldl (fun (opened, shown) c => (stepQuote opened c, maskChar opened c :: shown))
    ((none : Option Char), ([] : List Char))).2.reverse

/-- The places where a character stands in a masked text, ascending. -/
def occurrences (c : Char) (masked : List Char) : List Nat :=
  masked.zipIdx.filterMap fun (d, i) => if d = c then some i else none

/-! ## The pass as a recursion -/

theorem foldl_mask (opened : Option Char) (cs shown : List Char) :
    cs.foldl (fun (opened, shown) c => (stepQuote opened c, maskChar opened c :: shown))
      (opened, shown) = (quoteAfter opened cs, (maskFrom opened cs).reverse ++ shown) := by
  induction cs generalizing opened shown with
  | nil => rfl
  | cons c cs ih => simp [ih, quoteAfter, maskFrom]

theorem mask_eq_maskFrom (cs : List Char) : mask cs = maskFrom none cs := by
  simp [mask, foldl_mask]

@[simp] theorem length_maskFrom (opened : Option Char) (cs : List Char) :
    (maskFrom opened cs).length = cs.length := by
  induction cs generalizing opened with
  | nil => rfl
  | cons c cs ih => simp [maskFrom, ih]

@[simp] theorem length_mask (cs : List Char) : (mask cs).length = cs.length := by
  simp [mask_eq_maskFrom]

/-! ## Masks of parts -/

theorem quoteAfter_append (opened : Option Char) (as bs : List Char) :
    quoteAfter opened (as ++ bs) = quoteAfter (quoteAfter opened as) bs := by
  simp [quoteAfter]

theorem maskFrom_append (opened : Option Char) (as bs : List Char) :
    maskFrom opened (as ++ bs) = maskFrom opened as ++ maskFrom (quoteAfter opened as) bs := by
  induction as generalizing opened with
  | nil => rfl
  | cons a as ih => simp [maskFrom, quoteAfter, ih]

/-- A mask falls into the masks of two parts if the first part leaves no quote open. -/
theorem mask_append {as : List Char} (h : quoteAfter none as = none) (bs : List Char) :
    mask (as ++ bs) = mask as ++ mask bs := by
  simp [mask_eq_maskFrom, maskFrom_append, h]

/-- The mask of a text without quote marks is the text itself. -/
theorem mask_of_no_quote {cs : List Char} (h : ∀ c ∈ cs, isQuote c = false) :
    mask cs = cs ∧ quoteAfter none cs = none := by
  rw [mask_eq_maskFrom]
  induction cs with
  | nil => exact ⟨rfl, rfl⟩
  | cons c cs ih =>
    have hc : isQuote c = false := h c (by simp)
    have hs : stepQuote none c = none := by simp [stepQuote, hc]
    obtain ⟨h₁, h₂⟩ := ih fun d hd => h d (by simp [hd])
    refine ⟨by simp [maskFrom, maskChar, hs, h₁], ?_⟩
    change quoteAfter (stepQuote none c) cs = none
    rw [hs, h₂]

/-- No quote is open in front of a character that shows and is neither filler nor quote mark. -/
theorem quoteAfter_take {opened : Option Char} {cs : List Char} {i : Nat} {c : Char}
    (h : (maskFrom opened cs)[i]? = some c) (hc : isQuote c = false) (hf : c ≠ filler)
    (ho : ∀ q, opened = some q → isQuote q = true) :
    quoteAfter opened (cs.take i) = none ∧ cs[i]? = some c := by
  induction cs generalizing opened i with
  | nil => simp [maskFrom] at h
  | cons d cs ih =>
    cases i with
    | zero =>
      simp only [maskFrom, List.getElem?_cons_zero, Option.some.injEq] at h
      cases opened with
      | none => exact ⟨rfl, by simpa [maskChar] using h⟩
      | some q =>
        exfalso
        by_cases hd : d = q
        · have hq := ho q rfl
          have : q = c := by simpa [maskChar, hd] using h
          rw [this, hc] at hq
          exact Bool.noConfusion hq
        · exact hf (by simpa [maskChar, hd] using h.symm)
    | succ i =>
      simp only [maskFrom, List.getElem?_cons_succ] at h
      have ho' : ∀ q, stepQuote opened d = some q → isQuote q = true := by
        intro q hq
        cases opened with
        | none =>
          by_cases hd : isQuote d = true
          · have : d = q := by simpa [stepQuote, hd] using hq
            exact this ▸ hd
          · simp [stepQuote, hd] at hq
        | some r =>
          by_cases hd : d = r
          · simp [stepQuote, hd] at hq
          · have : r = q := by simpa [stepQuote, hd] using hq
            exact this ▸ ho r rfl
      have := ih h ho'
      simpa [quoteAfter] using this

theorem quoteAfter_take_mask {cs : List Char} {i : Nat} {c : Char}
    (h : (mask cs)[i]? = some c) (hc : isQuote c = false) (hf : c ≠ filler) :
    quoteAfter none (cs.take i) = none ∧ cs[i]? = some c :=
  quoteAfter_take (mask_eq_maskFrom cs ▸ h) hc hf (by simp)

/-! ## Occurrences -/

theorem mem_occurrences {c : Char} {masked : List Char} {i : Nat} :
    i ∈ occurrences c masked ↔ masked[i]? = some c := by
  simp only [occurrences, List.mem_filterMap, Prod.exists, List.mem_zipIdx_iff_getElem?]
  constructor
  · rintro ⟨d, j, hd, hj⟩
    split at hj
    · next h => cases hj; rw [hd, h]
    · cases hj
  · intro h
    exact ⟨c, i, h, by simp⟩

/-- Occurrences are found in ascending order. -/
theorem occurrences_sorted (c : Char) (masked : List Char) :
    (occurrences c masked).Pairwise (· < ·) := by
  have hplaces : (masked.zipIdx.map Prod.snd).Pairwise (· < ·) := by
    rw [List.zipIdx_map_snd]
    exact List.pairwise_lt_range'
  rw [occurrences, List.pairwise_filterMap]
  rw [List.pairwise_map] at hplaces
  refine hplaces.imp fun {d e} hde i hi j hj => ?_
  simp only [Option.ite_none_right_eq_some, Option.some.injEq] at hi hj
  rw [← hi.2, ← hj.2]
  exact hde

end BusinessRules.Expression

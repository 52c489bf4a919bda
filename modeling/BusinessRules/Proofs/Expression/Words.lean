import BusinessRules.Expression.Condition
import BusinessRules.Proofs.Expression.Grammar

/-!
# Texts joined by connectives

A connective is looked for as a word between blanks on the mask of a text.  So a text without such
a word comes through a split whole, and texts joined by a connective come apart again into those
texts, whatever case the connective is written in and whatever blanks stand around it.

## Main definitions

* `words`: the words of a masked text
* `Lacks`: a masked text without a word that spells a connective
* `Separator`: a connective between blanks
* `Joined`: items with separators between them
* `Separates`: a masked text in which a connective is found

## Main statements

* `afterConnective?_eq_none`: no connective begins inside a text that lacks it
* `parts_joined`: joined texts come apart again
* `parts_whole`: a text without a connective is left whole
-/

namespace BusinessRules.Expression

open Text (Blanks Tight)

/-! ## Words -/

/-- The characters of the words that connectives are looked for among. -/
def isSymbolChar (c : Char) : Bool := isNameChar c || c = '&' || c = '|'

/-- The words of a masked text: the runs of such characters, with an empty word between any other
two characters. -/
def words (masked : List Char) : List (List Char) := masked.splitOnP fun c => !isSymbolChar c

/-- No word of a masked text spells a connective, in any case. -/
def Lacks (k : Connective) (masked : List Char) : Prop :=
  ∀ w ∈ words masked, w.map Char.toLower ∉ k.spellings

section Lacks

variable {k : Connective} {as bs : List Char}

theorem nil_not_mem_spellings (k : Connective) : [] ∉ k.spellings := by
  cases k <;> decide

/-- Words end at any other character. -/
theorem lacks_append_cons {c : Char} (hc : isSymbolChar c = false) :
    Lacks k (as ++ c :: bs) ↔ Lacks k as ∧ Lacks k bs := by
  rw [Lacks, words, List.splitOnP_append_cons as bs (by simp [hc])]
  simp only [List.mem_append, or_imp, forall_and]
  rfl

theorem lacks_word (hword : ∀ c ∈ as, isSymbolChar c = true)
    (h : as.map Char.toLower ∉ k.spellings) : Lacks k as := by
  intro w hw
  rw [words, List.splitOnP_eq_singleton (fun c hc => by simp [hword c hc]),
    List.mem_singleton] at hw
  rwa [hw]

/-- What stands between separators stands in the text. -/
theorem mem_of_mem_splitOnP {separates : Char → Bool} {w : List Char}
    (h : w ∈ as.splitOnP separates) : ∀ c ∈ w, c ∈ as := by
  induction as generalizing w with
  | nil =>
    rw [List.splitOnP_nil, List.mem_singleton] at h
    simp [h]
  | cons a as ih =>
    intro c hc
    rw [List.splitOnP_cons_eq_if_modifyHead] at h
    split at h
    · rcases List.mem_cons.1 h with rfl | h
      · cases hc
      · exact List.mem_cons_of_mem a (ih h c hc)
    · obtain ⟨v, vs, hv⟩ := List.exists_cons_of_ne_nil (List.splitOnP_ne_nil separates as)
      rw [hv, List.modifyHead_cons] at h
      rcases List.mem_cons.1 h with rfl | h
      · rcases List.mem_cons.1 hc with rfl | hc
        · exact List.mem_cons_self
        · exact List.mem_cons_of_mem a (ih (hv ▸ List.mem_cons_self) c hc)
      · exact List.mem_cons_of_mem a (ih (hv ▸ List.mem_cons_of_mem v h) c hc)

/-- Without the characters that spellings begin with there are no connectives. -/
theorem lacks_of_forall (h : ∀ c ∈ as, c.toLower ∉ ['a', '&', 'o', '|']) : Lacks k as := by
  have hinitial : ∀ s ∈ k.spellings, ∃ c rest, s = c :: rest ∧ c ∈ ['a', '&', 'o', '|'] := by
    intro s hs
    cases k with
    | and =>
      rcases List.mem_pair.1 hs with rfl | rfl
      · exact ⟨'a', _, rfl, by simp⟩
      · exact ⟨'&', _, rfl, by simp⟩
    | or =>
      rcases List.mem_pair.1 hs with rfl | rfl
      · exact ⟨'o', _, rfl, by simp⟩
      · exact ⟨'|', _, rfl, by simp⟩
  intro w hw hmem
  obtain ⟨c, rest, hc, hinitial⟩ := hinitial _ hmem
  obtain ⟨d, ds, rfl, rfl, -⟩ := List.map_eq_cons_iff.1 hc
  exact h d (mem_of_mem_splitOnP hw d List.mem_cons_self) hinitial

theorem lacks_nil (k : Connective) : Lacks k [] :=
  lacks_word (by simp) (nil_not_mem_spellings k)

/-- Characters that belong to no word may be put in front. -/
theorem Lacks.append_left (has : ∀ c ∈ as, isSymbolChar c = false) (hbs : Lacks k bs) :
    Lacks k (as ++ bs) := by
  induction as with
  | nil => exact hbs
  | cons a as ih =>
    rw [show a :: as ++ bs = [] ++ a :: (as ++ bs) from rfl,
      lacks_append_cons (has a List.mem_cons_self)]
    exact ⟨lacks_nil k, ih fun c hc => has c (List.mem_cons_of_mem a hc)⟩

/-- Characters that belong to no word may stand between two texts. -/
theorem Lacks.append {mid : List Char} (has : Lacks k as) (hne : mid ≠ [])
    (hmid : ∀ c ∈ mid, isSymbolChar c = false) (hbs : Lacks k bs) :
    Lacks k (as ++ mid ++ bs) := by
  obtain ⟨c, rest, rfl⟩ := List.exists_cons_of_ne_nil hne
  rw [List.append_assoc, List.cons_append, lacks_append_cons (hmid c List.mem_cons_self)]
  exact ⟨has, .append_left (fun d hd => hmid d (List.mem_cons_of_mem c hd)) hbs⟩

end Lacks

theorem isSymbolChar_of_isBlank {c : Char} (h : Text.isBlank c = true) :
    isSymbolChar c = false := by
  by_contra hc
  simp only [isSymbolChar, Bool.not_eq_false, Bool.or_eq_true, decide_eq_true_eq] at hc
  rcases hc with (hc | rfl) | rfl
  · rw [isBlank_of_isNameChar hc] at h
    cases h
  · revert h
    decide
  · revert h
    decide

theorem isSymbolChar_of_toLower {c : Char} (h : isSymbolChar c.toLower = true) :
    isSymbolChar c = true := by
  by_cases hupper : c.isUpper = true
  · simp [isSymbolChar, isNameChar, Char.isAlphanum, Char.isAlpha, hupper]
  · rwa [Char.toLower_eq_of_not_isUpper hupper] at h

/-- A spelling of a connective is a word. -/
theorem isSymbolChar_of_spelling {k : Connective} {w : List Char}
    (h : w.map Char.toLower ∈ k.spellings) : w ≠ [] ∧ ∀ c ∈ w, isSymbolChar c = true := by
  have hall : (k.spellings.all fun s => s.all isSymbolChar) = true := by
    cases k <;> decide
  constructor
  · rintro rfl
    exact nil_not_mem_spellings k h
  · intro c hc
    have hs := List.all_eq_true.1 (List.all_eq_true.1 hall _ h)
    exact isSymbolChar_of_toLower (hs _ (List.mem_map_of_mem hc))

theorem not_lacks_spelling {k : Connective} {w : List Char} (h : w.map Char.toLower ∈ k.spellings) :
    ¬ Lacks k w := by
  intro hlacks
  refine hlacks w ?_ h
  rw [words, List.splitOnP_eq_singleton fun c hc => by
    rw [(isSymbolChar_of_spelling h).2 c hc, Bool.not_true]]
  exact List.mem_singleton_self w

/-! ## Where a connective begins -/

theorem exists_of_afterBlanks? {X Z : Masked} (h : afterBlanks? X = some Z) :
    ∃ b, X = b ++ Z ∧ b ≠ [] ∧ ∀ c ∈ b.map Prod.snd, Text.isBlank c = true := by
  unfold afterBlanks? at h
  split at h
  · cases h
  · next x X =>
    split at h
    · next hx =>
      cases h
      refine ⟨x :: X.takeWhile fun y => Text.isBlank y.2, ?_, List.cons_ne_nil _ _, ?_⟩
      · rw [List.cons_append, List.takeWhile_append_dropWhile]
      · intro c hc
        rw [List.map_cons, List.mem_cons, List.mem_map] at hc
        rcases hc with rfl | ⟨y, hy, rfl⟩
        · exact hx
        · exact List.mem_takeWhile_imp (p := fun y : Char × Char => Text.isBlank y.2) hy
    · cases h

theorem exists_of_afterWord? {word : List Char} {X Z : Masked} (h : afterWord? word X = some Z) :
    ∃ w, X = w ++ Z ∧ (w.map Prod.snd).map Char.toLower = word := by
  induction word generalizing X with
  | nil =>
    cases h
    exact ⟨[], rfl, rfl⟩
  | cons d word ih =>
    cases X with
    | nil => cases h
    | cons x X =>
      rw [afterWord?] at h
      split at h
      · next hx =>
        obtain ⟨w, rfl, hw⟩ := ih h
        exact ⟨x :: w, rfl, by rw [List.map_cons, List.map_cons, hw, hx]⟩
      · cases h

/-- A connective is found as blanks, one of its spellings and blanks. -/
theorem exists_of_afterConnective? {k : Connective} {X Z : Masked}
    (h : afterConnective? k X = some Z) :
    ∃ b w b' : Masked, X = b ++ (w ++ (b' ++ Z)) ∧
      (b ≠ [] ∧ ∀ c ∈ b.map Prod.snd, Text.isBlank c = true) ∧
      (w.map Prod.snd).map Char.toLower ∈ k.spellings ∧
      (b' ≠ [] ∧ ∀ c ∈ b'.map Prod.snd, Text.isBlank c = true) := by
  simp only [afterConnective?, Option.bind_eq_some_iff] at h
  obtain ⟨Y, hY, Y', hY', hZ⟩ := h
  obtain ⟨word, hword, hY'⟩ := List.exists_of_findSome?_eq_some hY'
  obtain ⟨b, rfl, hb⟩ := exists_of_afterBlanks? hY
  obtain ⟨w, rfl, hw⟩ := exists_of_afterWord? hY'
  obtain ⟨b', rfl, hb'⟩ := exists_of_afterBlanks? hZ
  exact ⟨b, w, b', rfl, hb, hw ▸ hword, hb'⟩

/-- **No connective begins inside a text that lacks it**, if the text ends without a blank and
blanks, if anything, follow. -/
theorem afterConnective?_eq_none {k : Connective} {pre : List Char} {X R : Masked}
    (hlacks : Lacks k (pre ++ X.map Prod.snd))
    (hlast : ∃ front x, X = front ++ [x] ∧ Text.isBlank x.2 = false)
    (hR : ∀ x, R.head? = some x → Text.isBlank x.2 = true) :
    afterConnective? k (X ++ R) = none := by
  by_contra hsome
  obtain ⟨Z, hZ⟩ := Option.ne_none_iff_exists'.1 hsome
  obtain ⟨b, w, b', heq, ⟨hbne, hb⟩, hw, hb'ne, hb'⟩ := exists_of_afterConnective? hZ
  obtain ⟨hwne, hword⟩ := isSymbolChar_of_spelling hw
  obtain ⟨front, x, rfl, hx⟩ := hlast
  -- The blanks in front of the word lie inside the text, which does not end in a blank.
  obtain ⟨Y, hY, hrest⟩ : ∃ Y, front ++ [x] = b ++ Y ∧ Y ++ R = w ++ (b' ++ Z) := by
    rcases List.append_eq_append_iff.1 heq with ⟨Y, hbY, -⟩ | ⟨Y, hY, hrest⟩
    · have hmem : x.2 ∈ b.map Prod.snd := by
        rw [hbY]
        simp
      rw [hb _ hmem] at hx
      cases hx
    · exact ⟨Y, hY, hrest.symm⟩
  -- So does the word, since a blank follows the text.
  obtain ⟨V, hV, hVrest⟩ : ∃ V, Y = w ++ V ∧ V ++ R = b' ++ Z := by
    rcases List.append_eq_append_iff.1 hrest with ⟨V, hwV, hRV⟩ | ⟨V, hV, hrest⟩
    · rcases V with _ | ⟨y, V⟩
      · exact ⟨[], by rw [hwV, List.append_nil, List.append_nil], hRV⟩
      · have hblank := hR y (by rw [hRV]; rfl)
        have hsymbol : isSymbolChar y.2 = true := hword _ (by rw [hwV]; simp)
        rw [isSymbolChar_of_isBlank hblank] at hsymbol
        cases hsymbol
    · exact ⟨V, hV, hrest.symm⟩
  -- A blank is in front of the word and the end of the text or a blank behind it, so that the
  -- text has the word as one of its own.
  have hlacksV : Lacks k (w.map Prod.snd ++ V.map Prod.snd) := by
    obtain ⟨b₁, c, rfl⟩ : ∃ b₁ c, b = b₁ ++ [c] :=
      ⟨b.dropLast, b.getLast hbne, (List.dropLast_append_getLast hbne).symm⟩
    have hc := isSymbolChar_of_isBlank (hb c.2 (by simp))
    rw [hY, hV, show pre ++ (b₁ ++ [c] ++ (w ++ V)).map Prod.snd =
      (pre ++ b₁.map Prod.snd) ++ c.2 :: (w.map Prod.snd ++ V.map Prod.snd) by simp,
      lacks_append_cons hc] at hlacks
    exact hlacks.2
  refine not_lacks_spelling hw ?_
  rcases V with _ | ⟨y, V⟩
  · rwa [List.map_nil, List.append_nil] at hlacksV
  · obtain ⟨c, rest, rfl⟩ := List.exists_cons_of_ne_nil hb'ne
    have hy : y = c := (List.cons.inj hVrest).1
    have hblank : isSymbolChar y.2 = false :=
      isSymbolChar_of_isBlank (hb' y.2 (by rw [hy]; simp))
    exact ((lacks_append_cons hblank).1 hlacksV).1

/-! ## Splitting joined texts -/

/-- A connective between blanks. -/
structure Separator (k : Connective) where
  before : Blanks
  word : List Char
  after : Blanks
  before_ne : before.chars ≠ []
  spells : word.map Char.toLower ∈ k.spellings
  after_ne : after.chars ≠ []

/-- The text of a separator. -/
def Separator.text {k : Connective} (s : Separator k) : List Char :=
  s.before.chars ++ (s.word ++ s.after.chars)

theorem space_ne_nil : Blanks.space.chars ≠ [] := List.cons_ne_nil _ _

/-- A connective between single spaces. -/
def Separator.spaced {k : Connective} (word : List Char)
    (spells : word.map Char.toLower ∈ k.spellings) : Separator k :=
  ⟨.space, word, .space, space_ne_nil, spells, space_ne_nil⟩

/-- Items with separators between them. -/
inductive Joined (k : Connective) (α : Type) where
  | single (item : α)
  | link (item : α) (separator : Separator k) (rest : Joined k α)

namespace Joined

variable {k : Connective} {α : Type}

/-- The items, from left to right. -/
def items : Joined k α → List α
  | single a => [a]
  | link a _ rest => a :: rest.items

/-- The text of the items with the separators between them. -/
def text (item : α → List Char) : Joined k α → List Char
  | single a => item a
  | link a separator rest => item a ++ separator.text ++ rest.text item

end Joined

/-- A text that a split at a connective leaves whole. -/
structure Whole (k : Connective) (cs : List Char) : Prop where
  tight : Tight cs
  closed : quoteAfter none cs = none
  lacks : Lacks k (mask cs)

theorem withMask_append {as : List Char} (h : quoteAfter none as = none) (bs : List Char) :
    withMask (as ++ bs) = withMask as ++ withMask bs := by
  rw [withMask, mask_append h, List.zip_append (length_mask as).symm]
  rfl

theorem map_snd_withMask (cs : List Char) : (withMask cs).map Prod.snd = mask cs :=
  List.map_snd_zip (by rw [length_mask])

theorem map_fst_withMask (cs : List Char) : (withMask cs).map Prod.fst = cs :=
  List.map_fst_zip (by rw [length_mask])

/-- A part that lacks the connective is passed over as a whole. -/
theorem splitFrom_append {k : Connective} {R : Masked}
    (hR : ∀ x, R.head? = some x → Text.isBlank x.2 = true) {pre : List Char} {X : Masked}
    (hlacks : Lacks k (pre ++ X.map Prod.snd))
    (hlast : X = [] ∨ ∃ front x, X = front ++ [x] ∧ Text.isBlank x.2 = false)
    (front : List Char) :
    splitFrom k front (X ++ R) = splitFrom k ((X.map Prod.fst).reverse ++ front) R := by
  -- The characters that are passed move to `pre`, so that the whole text still lacks the word.
  induction X generalizing pre front with
  | nil => rfl
  | cons x X ih =>
    have hend := hlast.resolve_left (List.cons_ne_nil x X)
    have hnone := afterConnective?_eq_none hlacks hend hR
    have hlast' : X = [] ∨ ∃ front x, X = front ++ [x] ∧ Text.isBlank x.2 = false := by
      obtain ⟨front, y, hX, hy⟩ := hend
      rcases front with _ | ⟨z, front⟩
      · exact .inl (List.cons.inj hX).2
      · exact .inr ⟨front, y, (List.cons.inj hX).2, hy⟩
    have hlacks' : Lacks k (pre ++ [x.2] ++ X.map Prod.snd) := by
      rwa [List.append_assoc, List.singleton_append, ← List.map_cons]
    rw [List.cons_append] at hnone ⊢
    rw [splitFrom]
    split
    · next h =>
      rw [hnone] at h
      cases h
    · change splitFrom k (x.1 :: front) (X ++ R) = _
      rw [ih hlacks' hlast', List.map_cons, List.reverse_cons, List.append_assoc,
        List.singleton_append]

theorem afterBlanks?_append {B X : Masked} (hne : B ≠ [])
    (hB : ∀ x ∈ B, Text.isBlank x.2 = true)
    (hX : ∀ x, X.head? = some x → Text.isBlank x.2 = false) :
    afterBlanks? (B ++ X) = some X := by
  obtain ⟨x, B, rfl⟩ := List.exists_cons_of_ne_nil hne
  rw [List.cons_append, afterBlanks?, if_pos (hB x List.mem_cons_self),
    List.dropWhile_append_of_pos fun y hy => hB y (List.mem_cons_of_mem x hy)]
  rcases X with _ | ⟨y, X⟩
  · rfl
  · rw [List.dropWhile_cons_of_neg]
    simp [hX y rfl]

theorem afterWord?_append {word : List Char} {W X : Masked}
    (hW : (W.map Prod.snd).map Char.toLower = word) : afterWord? word (W ++ X) = some X := by
  induction W generalizing word with
  | nil =>
    cases hW
    rfl
  | cons x W ih =>
    cases hW
    rw [List.map_cons, List.map_cons, List.cons_append, afterWord?, if_pos rfl, ih rfl]

/-- A word that begins otherwise is not found. -/
theorem afterWord?_eq_none {d : Char} {word : List Char} {x : Char × Char} {X : Masked}
    (h : x.2.toLower ≠ d) : afterWord? (d :: word) (x :: X) = none := by
  rw [afterWord?, if_neg h]

/-- Either spelling of a connective is found. -/
theorem findSome?_spellings {k : Connective} {W X : Masked}
    (hW : (W.map Prod.snd).map Char.toLower ∈ k.spellings) :
    (k.spellings.findSome? fun word => afterWord? word (W ++ X)) = some X := by
  have hfirst : ∀ {s t : List Char}, (W.map Prod.snd).map Char.toLower = s →
      ([s, t].findSome? fun word => afterWord? word (W ++ X)) = some X := by
    intro s t hs
    rw [List.findSome?_cons, afterWord?_append hs]
  have hsecond : ∀ {c d : Char} {s t : List Char}, c ≠ d →
      (W.map Prod.snd).map Char.toLower = d :: t →
      ([c :: s, d :: t].findSome? fun word => afterWord? word (W ++ X)) = some X := by
    intro c d s t hne ht
    obtain ⟨x, rest, rfl⟩ : ∃ x rest, W = x :: rest := by
      refine List.exists_cons_of_ne_nil ?_
      rintro rfl
      cases ht
    have hx : x.2.toLower ≠ c := fun hc => hne (hc ▸ (List.cons.inj ht).1)
    rw [List.findSome?_cons, List.cons_append, afterWord?_eq_none hx, ← List.cons_append,
      List.findSome?_cons, afterWord?_append ht]
  cases k with
  | and =>
    rcases List.mem_cons.1 hW with h | h
    · exact hfirst h
    · exact hsecond (by decide) (List.mem_singleton.1 h)
  | or =>
    rcases List.mem_cons.1 hW with h | h
    · exact hfirst h
    · exact hsecond (by decide) (List.mem_singleton.1 h)

theorem isQuote_of_isSymbolChar {c : Char} (h : isSymbolChar c = true) :
    Literal.isQuote c = false :=
  eq_false_of_class mem_of_isQuote (by decide) h

/-- A separator shows as it is written. -/
theorem Separator.mask_text {k : Connective} (s : Separator k) :
    mask s.text = s.text ∧ quoteAfter none s.text = none := by
  refine mask_of_no_quote fun c hc => ?_
  simp only [Separator.text, List.mem_append] at hc
  rcases hc with hc | hc | hc
  · exact isQuote_of_isBlank (s.before.blank c hc)
  · exact isQuote_of_isSymbolChar ((isSymbolChar_of_spelling s.spells).2 c hc)
  · exact isQuote_of_isBlank (s.after.blank c hc)

/-- Where blanks, a spelling of a connective and blanks show, the connective is found. -/
theorem afterConnective?_append {k : Connective} {B W R : Masked} (hne : B ≠ [])
    (hB : ∀ x ∈ B, Text.isBlank x.2 = true) (hW : (W.map Prod.snd).map Char.toLower ∈ k.spellings) :
    afterConnective? k (B ++ (W ++ R)) = afterBlanks? R := by
  obtain ⟨hwordne, hword⟩ := isSymbolChar_of_spelling hW
  have hhead : ∀ x, (W ++ R).head? = some x → Text.isBlank x.2 = false := by
    intro x hx
    obtain ⟨y, rest, rfl⟩ := List.exists_cons_of_ne_nil (List.map_eq_nil_iff.not.1 hwordne)
    cases hx
    by_contra hblank
    have := isSymbolChar_of_isBlank (by simpa using hblank)
    rw [hword _ List.mem_cons_self] at this
    cases this
  rw [afterConnective?, afterBlanks?_append hne hB hhead, Option.bind_some, findSome?_spellings hW,
    Option.bind_some]

/-- A separator is found, and what follows it is left. -/
theorem afterConnective?_separator {k : Connective} (s : Separator k) {X : Masked}
    (hX : ∀ x, X.head? = some x → Text.isBlank x.2 = false) :
    afterConnective? k (withMask s.text ++ X) = some X := by
  have hzip : ∀ cs : List Char, cs.zip cs = cs.map fun c => (c, c) := by
    intro cs
    induction cs with
    | nil => rfl
    | cons c cs ih => rw [List.zip_cons_cons, ih, List.map_cons]
  have hblanks : ∀ b : Blanks, ∀ x ∈ b.chars.map fun c => (c, c), Text.isBlank x.2 = true := by
    intro b x hx
    obtain ⟨c, hc, rfl⟩ := List.mem_map.1 hx
    exact b.blank c hc
  have hspells : ((s.word.map fun c => (c, c)).map Prod.snd).map Char.toLower ∈ k.spellings := by
    rw [List.map_map, List.map_map]
    exact s.spells
  rw [withMask, s.mask_text.1, hzip, Separator.text, List.map_append, List.map_append,
    List.append_assoc, List.append_assoc,
    afterConnective?_append (by simpa using s.before_ne) (hblanks s.before) hspells,
    afterBlanks?_append (by simpa using s.after_ne) (hblanks s.after) hX]

/-- Where a separator shows, a connective is found. -/
theorem exists_afterConnective? {k : Connective} (s : Separator k) {X : Masked} {back : List Char}
    (h : X.map Prod.snd = s.text ++ back) : ∃ Z, afterConnective? k X = some Z := by
  rw [Separator.text, List.append_assoc] at h
  obtain ⟨B, Y, rfl, hB, hY⟩ := List.map_eq_append_iff.1 h
  rw [List.append_assoc] at hY
  obtain ⟨W, R, rfl, hW, hR⟩ := List.map_eq_append_iff.1 hY
  obtain ⟨c, rest, hc⟩ := List.exists_cons_of_ne_nil s.after_ne
  rw [hc, List.cons_append] at hR
  obtain ⟨x, R, rfl, rfl, -⟩ := List.map_eq_cons_iff.1 hR
  have hblank : Text.isBlank x.2 = true := s.after.blank x.2 (hc ▸ List.mem_cons_self)
  have hne : B ≠ [] := by
    rintro rfl
    exact s.before_ne hB.symm
  refine ⟨R.dropWhile fun y => Text.isBlank y.2, ?_⟩
  rw [afterConnective?_append hne (fun y hy => s.before.blank y.2 (hB ▸ List.mem_map_of_mem hy))
    (hW ▸ s.spells), afterBlanks?, if_pos hblank]

/-- A separator begins with a blank. -/
theorem Separator.head {k : Connective} (s : Separator k) :
    ∃ c rest, s.text = c :: rest ∧ Text.isBlank c = true := by
  obtain ⟨c, rest, hc⟩ := List.exists_cons_of_ne_nil s.before_ne
  exact ⟨c, rest ++ (s.word ++ s.after.chars), by rw [Separator.text, hc, List.cons_append],
    s.before.blank c (hc ▸ List.mem_cons_self)⟩

/-- The mask of a tight text begins and ends without blanks as well. -/
theorem withMask_head {cs : List Char} (h : Tight cs) (R : Masked) :
    ∀ x, (withMask cs ++ R).head? = some x → Text.isBlank x.2 = false := by
  intro x hx
  obtain ⟨⟨c, rest, rfl, hc⟩, -⟩ := h
  rw [withMask, mask_eq_maskFrom, maskFrom, List.zip_cons_cons, List.cons_append] at hx
  cases hx
  exact hc

theorem withMask_last {cs : List Char} (h : Tight cs) :
    ∃ front x, withMask cs = front ++ [x] ∧ Text.isBlank x.2 = false := by
  obtain ⟨-, front, c, rfl, hc⟩ := h
  refine ⟨front.zip (maskFrom none front), (c, maskChar (quoteAfter none front) c), ?_, ?_⟩
  · rw [withMask, mask_eq_maskFrom, maskFrom_append,
      List.zip_append (length_maskFrom none front).symm]
    rfl
  · unfold maskChar
    split
    · exact hc
    · split
      · exact hc
      · exact (by decide : Text.isBlank filler = false)

namespace Joined

variable {k : Connective} {α : Type} {item : α → List Char}

theorem tight (s : Joined k α) (h : ∀ a ∈ s.items, Tight (item a)) : Tight (s.text item) := by
  induction s with
  | single a => exact h a List.mem_cons_self
  | link a separator rest ih =>
    exact (h a List.mem_cons_self).append (ih fun b hb => h b (List.mem_cons_of_mem a hb)) _

theorem closed (s : Joined k α) (h : ∀ a ∈ s.items, quoteAfter none (item a) = none) :
    quoteAfter none (s.text item) = none := by
  induction s with
  | single a => exact h a List.mem_cons_self
  | link a separator rest ih =>
    rw [text, quoteAfter_append, quoteAfter_append, h a List.mem_cons_self,
      separator.mask_text.2, ih fun b hb => h b (List.mem_cons_of_mem a hb)]

theorem mask_link {a : α} (separator : Separator k) (rest : Joined k α)
    (h : quoteAfter none (item a) = none) : mask ((link a separator rest).text item) =
      mask (item a) ++ (separator.text ++ mask (rest.text item)) := by
  rw [text, List.append_assoc, mask_append h, mask_append separator.mask_text.2,
    separator.mask_text.1]

/-- Texts joined by one connective lack the other one if each of them does. -/
theorem lacks {l : Connective} (hkl : k ≠ l) (s : Joined k α)
    (h : ∀ a ∈ s.items, quoteAfter none (item a) = none ∧ Lacks l (mask (item a))) :
    Lacks l (mask (s.text item)) := by
  induction s with
  | single a => exact (h a List.mem_cons_self).2
  | link a separator rest ih =>
    have hdisjoint : ∀ w ∈ k.spellings, w ∉ l.spellings := by
      cases k <;> cases l <;> first | exact absurd rfl hkl | decide
    have hword : Lacks l separator.word :=
      lacks_word (isSymbolChar_of_spelling separator.spells).2 (hdisjoint _ separator.spells)
    have hblank : ∀ b : Blanks, ∀ c ∈ b.chars, isSymbolChar c = false :=
      fun b c hc => isSymbolChar_of_isBlank (b.blank c hc)
    obtain ⟨hclosed, ha⟩ := h a List.mem_cons_self
    have hrest := ih fun b hb => h b (List.mem_cons_of_mem a hb)
    rw [mask_link separator rest hclosed, Separator.text, List.append_assoc, ← List.append_assoc]
    exact ha.append separator.before_ne (hblank _)
      (hword.append separator.after_ne (hblank _) hrest)

/-- Texts joined by one connective are left whole by a split at the other one. -/
theorem whole {l : Connective} (hkl : k ≠ l) (s : Joined k α)
    (h : ∀ a ∈ s.items, Whole l (item a)) : Whole l (s.text item) :=
  ⟨s.tight fun a ha => (h a ha).tight, s.closed fun a ha => (h a ha).closed,
    s.lacks hkl fun a ha => ⟨(h a ha).closed, (h a ha).lacks⟩⟩

end Joined

/-- What is joined comes apart into the items. -/
theorem splitFrom_joined {k : Connective} {α : Type} {item : α → List Char} (s : Joined k α)
    (h : ∀ a ∈ s.items, Whole k (item a)) :
    splitFrom k [] (withMask (s.text item)) = s.items.map item := by
  -- An item is passed over if the text ends behind it or a separator follows.
  have hpass : ∀ a R, Whole k (item a) →
      (∀ x, R.head? = some x → Text.isBlank x.2 = true) →
      splitFrom k [] (withMask (item a) ++ R) = splitFrom k (item a).reverse R := by
    intro a R ha hR
    have hlacks : Lacks k ([] ++ (withMask (item a)).map Prod.snd) := by
      rw [map_snd_withMask]
      exact ha.lacks
    rw [splitFrom_append hR hlacks (.inr (withMask_last ha.tight)), map_fst_withMask,
      List.append_nil]
  induction s with
  | single a =>
    have := hpass a [] (h a List.mem_cons_self) (by simp)
    rw [List.append_nil] at this
    rw [Joined.text, this, splitFrom]
    simp [afterConnective?, afterBlanks?, Joined.items]
  | link a separator rest ih =>
    have ha := h a List.mem_cons_self
    have hrest : ∀ b ∈ rest.items, Whole k (item b) := fun b hb => h b (List.mem_cons_of_mem a hb)
    have hhead : ∀ x, (withMask separator.text ++ withMask (rest.text item)).head? = some x →
        Text.isBlank x.2 = true := by
      intro x hx
      obtain ⟨c, cs, hc, hblank⟩ := separator.head
      rw [withMask, separator.mask_text.1, hc, List.zip_cons_cons, List.cons_append] at hx
      cases hx
      exact hblank
    have hX := withMask_head (rest.tight fun b hb => (hrest b hb).tight) []
    rw [List.append_nil] at hX
    rw [Joined.text, List.append_assoc, withMask_append ha.closed,
      withMask_append separator.mask_text.2, hpass a _ ha hhead, splitFrom]
    split
    · next h' =>
      rw [afterConnective?_separator separator hX] at h'
      cases h'
      rw [ih hrest, List.reverse_reverse, Joined.items, List.map_cons]
    · next h' =>
      rw [afterConnective?_separator separator hX] at h'
      cases h'

/-- **Joined texts come apart again.** -/
theorem parts_joined {k : Connective} {α : Type} {item : α → List Char} (s : Joined k α)
    (h : ∀ a ∈ s.items, Whole k (item a)) : parts k (s.text item) = s.items.map item := by
  rw [parts, splitFrom_joined s h, List.map_map]
  exact List.map_congr_left fun a ha => (h a ha).tight.trim_self

/-! ## Texts that no connective separates -/

/-- A masked text in which a connective is found. -/
def Separates (k : Connective) (masked : List Char) : Prop :=
  ∃ (s : Separator k) (front back : List Char), masked = front ++ s.text ++ back

theorem Separates.append {k : Connective} {masked : List Char} (h : Separates k masked)
    (front back : List Char) : Separates k (front ++ masked ++ back) := by
  obtain ⟨s, before, after, rfl⟩ := h
  exact ⟨s, front ++ before, after ++ back, by simp⟩

/-- What is taken for a connective is one. -/
theorem exists_separator {k : Connective} {X Z : Masked} (h : afterConnective? k X = some Z) :
    ∃ (s : Separator k) (Y : Masked), X = Y ++ Z ∧ Y.map Prod.snd = s.text := by
  obtain ⟨b, w, b', rfl, ⟨hbne, hb⟩, hw, hb'ne, hb'⟩ := exists_of_afterConnective? h
  refine ⟨⟨⟨b.map Prod.snd, hb⟩, w.map Prod.snd, ⟨b'.map Prod.snd, hb'⟩, by simpa using hbne, hw,
    by simpa using hb'ne⟩, b ++ (w ++ b'), by simp, ?_⟩
  simp [Separator.text]

theorem separates_of_afterConnective? {k : Connective} {X Z : Masked}
    (h : afterConnective? k X = some Z) : Separates k (X.map Prod.snd) := by
  obtain ⟨s, Y, rfl, hY⟩ := exists_separator h
  exact ⟨s, [], Z.map Prod.snd, by rw [List.map_append, hY, List.nil_append]⟩

/-- A text without a connective is left whole by a split. -/
theorem splitFrom_whole {k : Connective} (front : List Char) {X : Masked}
    (h : ¬ Separates k (X.map Prod.snd)) :
    splitFrom k front X = [front.reverse ++ X.map Prod.fst] := by
  fun_induction splitFrom k front X with
  | case1 front X rest hrest ih => exact absurd (separates_of_afterConnective? hrest) h
  | case2 front hnone => simp
  | case3 front x X hnone ih =>
    have hrest : ¬ Separates k (X.map Prod.snd) := fun hX => h (by simpa using hX.append [x.2] [])
    rw [ih hrest]
    simp

theorem parts_whole {k : Connective} {cs : List Char} (h : ¬ Separates k (mask cs)) :
    parts k cs = [Text.trim cs] := by
  rw [parts, splitFrom_whole [] (by rwa [map_snd_withMask]), map_fst_withMask]
  rfl

end BusinessRules.Expression

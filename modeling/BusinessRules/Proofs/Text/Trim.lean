import Mathlib.Data.List.DropRight
import BusinessRules.Text.Blank

/-!
# Blanks around and inside texts

Texts are trimmed again at every step of an evaluation.  A text that begins and ends with other
characters comes through with any blanks around it, and trimming reaches no further than the
first such character from either side, so parts of a text may be trimmed before they are put
together.

## Main definitions

* `Blanks`: a run of blanks, possibly empty
* `Tight`: a text that neither begins nor ends with a blank, and is not empty

## Main statements

* `Tight.trim`: what trimming leaves of a tight text between blanks
* `trim_around`: trimming stops at a character that is no blank
* `trim_trimmed`: the outer parts of a text may be trimmed beforehand
-/

namespace BusinessRules.Text

/-- A run of blanks. -/
structure Blanks where
  chars : List Char
  blank : ∀ c ∈ chars, isBlank c = true

namespace Blanks

/-- No blanks at all. -/
def none : Blanks := ⟨[], by simp⟩

/-- One space. -/
def space : Blanks := ⟨[' '], fun c hc => by rw [List.mem_singleton.1 hc]; decide⟩

end Blanks

/-! ## One side -/

theorem trimStart_append {bs : List Char} (h : ∀ c ∈ bs, isBlank c = true) (cs : List Char) :
    trimStart (bs ++ cs) = trimStart cs :=
  List.dropWhile_append_of_pos h

theorem trimEnd_append {bs : List Char} (h : ∀ c ∈ bs, isBlank c = true) (cs : List Char) :
    trimEnd (cs ++ bs) = trimEnd cs := by
  rw [trimEnd, List.reverse_append,
    List.dropWhile_append_of_pos fun c hc => h c (List.mem_reverse.1 hc), trimEnd]

theorem trimStart_cons {c : Char} (h : isBlank c = false) (cs : List Char) :
    trimStart (c :: cs) = c :: cs :=
  List.dropWhile_cons_of_neg (by simp [h])

theorem trimEnd_concat {c : Char} (h : isBlank c = false) (cs : List Char) :
    trimEnd (cs ++ [c]) = cs ++ [c] :=
  List.rdropWhile_concat_neg isBlank cs c (by simp [h])

/-- Trimming the start leaves blanks out and nothing else. -/
theorem exists_trimStart (cs : List Char) :
    ∃ bs, (∀ c ∈ bs, isBlank c = true) ∧ cs = bs ++ trimStart cs :=
  ⟨cs.takeWhile isBlank, fun _ h => List.mem_takeWhile_imp h, List.takeWhile_append_dropWhile.symm⟩

theorem exists_trimEnd (cs : List Char) :
    ∃ bs, (∀ c ∈ bs, isBlank c = true) ∧ cs = trimEnd cs ++ bs := by
  obtain ⟨bs, hbs, h⟩ := exists_trimStart cs.reverse
  refine ⟨bs.reverse, fun c hc => hbs c (List.mem_reverse.1 hc), ?_⟩
  calc cs = cs.reverse.reverse := (List.reverse_reverse cs).symm
    _ = (bs ++ trimStart cs.reverse).reverse := congrArg List.reverse h
    _ = trimEnd cs ++ bs.reverse := List.reverse_append

/-- Trimming the start stops at a character that is no blank. -/
theorem trimStart_around {c : Char} (h : isBlank c = false) (before after : List Char) :
    trimStart (before ++ c :: after) = trimStart before ++ c :: after := by
  obtain ⟨bs, hbs, heq⟩ := exists_trimStart before
  rcases hrest : trimStart before with _ | ⟨d, rest⟩
  · rw [heq, hrest, List.append_nil, trimStart_append hbs, trimStart_cons h, List.nil_append]
  · have hd : isBlank d = false := by
      have := List.head?_dropWhile_not isBlank before
      rw [show before.dropWhile isBlank = d :: rest from hrest] at this
      simpa using this
    rw [heq, List.append_assoc, trimStart_append hbs, hrest, List.cons_append, trimStart_cons hd]

theorem trimEnd_eq_reverse (cs : List Char) : trimEnd cs = (trimStart cs.reverse).reverse := rfl

theorem trimEnd_around {c : Char} (h : isBlank c = false) (before after : List Char) :
    trimEnd (before ++ c :: after) = before ++ c :: trimEnd after := by
  have hreverse : (before ++ c :: after).reverse = after.reverse ++ c :: before.reverse := by
    simp
  rw [trimEnd_eq_reverse, hreverse, trimStart_around h, trimEnd_eq_reverse after]
  simp

/-! ## Both sides -/

/-- Trimming stops at a character that is no blank. -/
theorem trim_around {c : Char} (h : isBlank c = false) (before after : List Char) :
    trim (before ++ c :: after) = trimStart before ++ c :: trimEnd after := by
  rw [trim, trimStart_around h, trimEnd_around h]

/-- Nothing is left of blanks. -/
theorem trim_blanks {bs : List Char} (h : ∀ c ∈ bs, isBlank c = true) : trim bs = [] := by
  rw [trim, trimStart, List.dropWhile_eq_nil_iff.2 h]
  rfl

/-- Blanks around a text are trimmed off. -/
theorem trim_padded {bs bs' : List Char} (h : ∀ c ∈ bs, isBlank c = true)
    (h' : ∀ c ∈ bs', isBlank c = true) (cs : List Char) : trim (bs ++ cs ++ bs') = trim cs := by
  by_cases hall : ∀ c ∈ cs, isBlank c = true
  · rw [trim_blanks hall, trim_blanks]
    intro c hc
    rcases List.mem_append.1 hc with hc | hc
    · rcases List.mem_append.1 hc with hc | hc
      · exact h c hc
      · exact hall c hc
    · exact h' c hc
  · push Not at hall
    obtain ⟨c, hmem, hc⟩ := hall
    have hc : isBlank c = false := by simpa using hc
    obtain ⟨before, after, rfl⟩ := List.append_of_mem hmem
    rw [trim_around hc, show bs ++ (before ++ c :: after) ++ bs' =
      (bs ++ before) ++ c :: (after ++ bs') by simp, trim_around hc, trimStart_append h,
      trimEnd_append h']

/-- Trimming leaves blanks out and nothing else. -/
theorem exists_trim (cs : List Char) : ∃ bs bs', (∀ c ∈ bs, isBlank c = true) ∧
    (∀ c ∈ bs', isBlank c = true) ∧ cs = bs ++ (trim cs ++ bs') := by
  obtain ⟨bs, hbs, hstart⟩ := exists_trimStart cs
  obtain ⟨bs', hbs', hend⟩ := exists_trimEnd (trimStart cs)
  exact ⟨bs, bs', hbs, hbs', by rw [trim, ← hend, ← hstart]⟩

/-- Trimming twice is trimming once. -/
theorem trim_trim (cs : List Char) : trim (trim cs) = trim cs := by
  obtain ⟨bs, bs', hbs, hbs', hcs⟩ := exists_trim cs
  conv => rhs; rw [hcs, ← List.append_assoc, trim_padded hbs hbs']

/-- The outer parts of a text may be trimmed beforehand. -/
theorem trim_trimmed (before mid after : List Char) :
    trim (trimStart before ++ mid ++ trimEnd after) = trim (before ++ mid ++ after) := by
  obtain ⟨bs, hbs, hbefore⟩ := exists_trimStart before
  obtain ⟨bs', hbs', hafter⟩ := exists_trimEnd after
  conv => rhs; rw [hbefore, hafter]
  rw [show bs ++ trimStart before ++ mid ++ (trimEnd after ++ bs') =
    bs ++ (trimStart before ++ mid ++ trimEnd after) ++ bs' by simp, trim_padded hbs hbs']

theorem trim_trimStart (cs : List Char) : trim (trimStart cs) = trim cs := by
  simpa [trimEnd] using trim_trimmed cs [] []

theorem trim_trimEnd (cs : List Char) : trim (trimEnd cs) = trim cs := by
  simpa [trimStart] using trim_trimmed [] [] cs

/-- A text with a character that is no blank is no blank text. -/
theorem isBlankText_of_mem {text : String} {c : Char} (hmem : c ∈ text.toList)
    (h : isBlank c = false) : isBlankText text = false := by
  rw [isBlankText, List.all_eq_false]
  exact ⟨c, hmem, by simp [h]⟩

/-! ## Tight texts -/

/-- A text that neither begins nor ends with a blank, and is not empty. -/
structure Tight (cs : List Char) : Prop where
  head : ∃ c rest, cs = c :: rest ∧ isBlank c = false
  last : ∃ front c, cs = front ++ [c] ∧ isBlank c = false

namespace Tight

/-- A text of characters none of which is blank. -/
theorem of_forall {cs : List Char} (hne : cs ≠ []) (h : ∀ c ∈ cs, isBlank c = false) :
    Tight cs := by
  constructor
  · obtain ⟨c, rest, rfl⟩ := List.exists_cons_of_ne_nil hne
    exact ⟨c, rest, rfl, h c (by simp)⟩
  · obtain ⟨front, c, rfl⟩ := (List.eq_nil_or_concat cs).resolve_left hne
    exact ⟨front, c, List.concat_eq_append, h c (by simp)⟩

/-- What stands between two tight texts is inside. -/
theorem append {as bs : List Char} (ha : Tight as) (hb : Tight bs) (mid : List Char) :
    Tight (as ++ mid ++ bs) := by
  obtain ⟨⟨c, rest, rfl, hc⟩, -⟩ := ha
  obtain ⟨-, ⟨front, d, rfl, hd⟩⟩ := hb
  exact ⟨⟨c, rest ++ mid ++ (front ++ [d]), by simp, hc⟩,
    ⟨c :: rest ++ mid ++ front, d, by simp, hd⟩⟩

/-- A character that is no blank may be put in front, whatever stands between. -/
theorem cons {c : Char} (hc : isBlank c = false) {cs : List Char} (h : Tight cs)
    (mid : List Char) : Tight (c :: mid ++ cs) := by
  obtain ⟨-, front, d, rfl, hd⟩ := h
  exact ⟨⟨c, mid ++ (front ++ [d]), by simp, hc⟩, ⟨c :: mid ++ front, d, by simp, hd⟩⟩

theorem ne_nil {cs : List Char} (h : Tight cs) : cs ≠ [] := by
  obtain ⟨⟨c, rest, rfl, -⟩, -⟩ := h
  exact List.cons_ne_nil c rest

/-- **A tight text between blanks is what trimming leaves.** -/
theorem trim {cs : List Char} (h : Tight cs) {bs bs' : List Char}
    (hbs : ∀ c ∈ bs, isBlank c = true) (hbs' : ∀ c ∈ bs', isBlank c = true) :
    Text.trim (bs ++ cs ++ bs') = cs := by
  obtain ⟨⟨c, rest, hhead, hc⟩, ⟨front, d, hlast, hd⟩⟩ := h
  rw [trim_padded hbs hbs', Text.trim, hhead, trimStart_cons hc, ← hhead, hlast, trimEnd_concat hd]

/-- A text with a tight text inside is no blank text. -/
theorem isBlankText {cs : List Char} (h : Tight cs) (front back : Blanks) :
    Text.isBlankText (String.ofList (front.chars ++ cs ++ back.chars)) = false := by
  obtain ⟨⟨c, rest, rfl, hc⟩, -⟩ := h
  exact isBlankText_of_mem (by simp) hc

theorem trim_self {cs : List Char} (h : Tight cs) : Text.trim cs = cs := by
  simpa [Blanks.none] using h.trim Blanks.none.blank Blanks.none.blank

end Tight

end BusinessRules.Text

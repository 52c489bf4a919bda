import BusinessRules.Proofs.Expression.Splice
import BusinessRules.Proofs.Value.Order

/-!
# Literals read back

A value is written into an expression as its literal, and the literal is read as a value again.
Texts, truth values and null come back as they were, whatever a text looks like: the quote marks
around it keep a text that spells a number, a keyword or blanks from being read as one.  A number
comes back as the same number, though with other digits if it had a positive exponent, for a literal
has no power of ten and writes the zeros out.

## Main statements

* `read?_padded`: blanks around a literal do not matter
* `kind_of_format_error`: why a value has no literal
* `read?_format`: what comes back of a literal, and which values have one
-/

namespace BusinessRules.Literal

open Expression Text

/-- Blanks around a literal do not matter. -/
theorem read?_padded (before after : Blanks) (cs : List Char) :
    read? (before.chars ++ cs ++ after.chars) = read? cs := by
  rw [read?, trim_padded before.blank after.blank, read?]

/-- A word that has a value whatever names stand for is a literal. -/
theorem read?_leaf_of_value {l : Leaf} {w : Value} (h : ∀ names, l.value names = .ok w) :
    read? l.text = .ok (some w) := by
  rcases read?_leaf l fun _ => .ok none with ⟨x, hread, hvalue⟩ | ⟨cs, identifier, -, -, hvalue⟩
  · rw [hread, ← hvalue, h]
    rfl
  · -- A word that is no literal has no value where no name is bound.
    rw [h, resolve, identifier] at hvalue
    cases hvalue

theorem kind_of_format_error {v : Value} {f : Fault} (h : format v = .error f) :
    f.kind = .value := by
  cases v with
  | null => cases h
  | bool b => cases b <;> cases h
  | number n => cases h
  | list items =>
    cases h
    rcases kind_showing .collectionLiteral (fun _ => rfl)
      ((Value.list items).toDatum.shown .unbounded) with hkind | hfails
    · exact hkind
    · rw [Datum.eq_of_unshowable_unbounded (Datum.unshowable_shown _ _ hfails)]
      rfl
  | text s =>
    rw [format] at h
    split at h
    · cases h
    · cases h
      rfl

/-- **What comes back of a literal.**  A value that is no collection, and no text with both quote
marks, has a literal; a number must be finite, with an exponent that decimals can have.  The
literal, with any blanks around it, is read as a value of the same kind that is equal to the first
one, and the same as the first one unless it is a number.  A collection and a text with both quote
marks have no literal, and asking for one is a fault. -/
theorem read?_format (v : Value) :
    (v.hasLiteral = true → (∀ x, v = .number x → x.InRange) →
      ∃ literal, format v = .ok literal ∧ ∀ before after : Blanks, ∃ w,
        read? (before.chars ++ literal ++ after.chars) = .ok (some w) ∧ w.kind = v.kind ∧
          w.compare v = .ok .eq ∧ (v.kind ≠ .number → w = v)) ∧
      (v.hasLiteral = false → ∃ f, format v = .error f ∧ f.kind = .value) := by
  constructor
  · intro hv hrange
    obtain ⟨literal, hliteral⟩ := Value.exists_format_of_hasLiteral hv
    obtain ⟨l, w, rfl, hvalue, halike, -⟩ := exists_leaf_of_format hliteral hrange
    refine ⟨l.text, hliteral, fun before after => ⟨w, ?_, ?_⟩⟩
    · rw [read?_padded, read?_leaf_of_value hvalue]
    · rcases halike with rfl | ⟨x, y, rfl, rfl, hsame⟩
      · have hdefined : w.isDefined = true := by
          cases w with
          | number x => exact (hrange x rfl).isFinite.isDefined
          | list items => cases hv
          | _ => rfl
        exact ⟨rfl, Value.compare_self hdefined, fun _ => rfl⟩
      · have hequal : x.compare y = .ok .eq :=
          (Decimal.compare_eq_iff hsame.left hsame.right).2 hsame.toRat_eq
        refine ⟨rfl, ?_, fun hkind => absurd rfl hkind⟩
        change Value.compareNumbers x y = _
        rw [Value.compareNumbers, hequal]
  · intro hv
    obtain ⟨f, hf⟩ := Value.exists_error_of_not_hasLiteral hv
    exact ⟨f, hf, kind_of_format_error hf⟩

/-- Fifteen thousand below zero, written with a power of ten. -/
def samplePower : Value := .number (.finite true 15 3)

/-- A text that spells a number between blanks and holds one of the quote marks. -/
def sampleQuoted : Value := .text " 1e2\n'"

/-- The number comes back with other digits, and the text as it was. -/
theorem read?_formatSample :
    (∃ literal, format samplePower = .ok literal ∧ ∀ before after : Blanks, ∃ w,
      read? (before.chars ++ literal ++ after.chars) = .ok (some w) ∧ w.kind = .number ∧
        w.compare samplePower = .ok .eq) ∧
      (∃ literal, format sampleQuoted = .ok literal ∧ ∀ before after : Blanks,
        read? (before.chars ++ literal ++ after.chars) = .ok (some sampleQuoted)) ∧
      ∃ f, format (.list [samplePower]) = .error f ∧ f.kind = .value := by
  refine ⟨?_, ?_, (read?_format _).2 rfl⟩
  · obtain ⟨literal, hliteral, hread⟩ := (read?_format samplePower).1 rfl fun x hx => by
      cases hx
      exact ⟨true, 15, 3, rfl, by decide, by decide +kernel⟩
    refine ⟨literal, hliteral, fun before after => ?_⟩
    obtain ⟨w, hw, hkind, hcompare, -⟩ := hread before after
    exact ⟨w, hw, hkind, hcompare⟩
  · obtain ⟨literal, hliteral, hread⟩ :=
      (read?_format sampleQuoted).1 (by decide +kernel) fun x hx => by cases hx
    refine ⟨literal, hliteral, fun before after => ?_⟩
    obtain ⟨w, hw, -, -, hsame⟩ := hread before after
    rw [hw, hsame (by decide)]

end BusinessRules.Literal

import BusinessRules.Document.Json

/-!
# Why texts of data interchange cannot be read

A text in the notation of data interchange that breaks the rules of the notation is refused, always
for the same reason.  Apart from that its numbers can make it unreadable, whole numbers with too
many digits and numbers whose power of ten is beyond all bounds, and so can lists and mappings that
are nested deeper than there is room.

## Main definitions

* `Json.Unreadable`: the faults

## Main statements

* `Json.unreadable_readValue`, `Json.unreadable_readItems`, `Json.unreadable_readMembers`: the
  faults of values, lists and mappings, by induction on what is left to read
* `Json.unreadable_read`: the faults of texts
-/

namespace BusinessRules.Json

/-- The faults of texts in the notation of data interchange. -/
inductive Unreadable : Fault → Prop
  | invalid : Unreadable .invalidJson
  | tooLong (digits : Nat) : Unreadable (.numberTooLong digits)
  | outOfRange : Unreadable (.arithmetic .invalidOperation)
  | tooDeep (task : String) : Unreadable (.nestedTooDeep task)

variable {f : Fault}

theorem unreadable_numberOf {negative : Bool} {whole fraction : List Char}
    (h : numberOf negative whole fraction = .error f) : Unreadable f := by
  rw [numberOf] at h
  split at h
  · split at h
    · cases h
      exact .tooLong whole.length
    · cases h
  · split at h
    · cases h
    · cases h
      exact .outOfRange

theorem unreadable_readScalar {cs : List Char} (h : readScalar cs = .error f) : Unreadable f := by
  rw [readScalar] at h
  split at h
  · cases h
  · split at h
    · cases h
      exact .invalid
    · split at h
      · cases h
      · next hnumber =>
        cases h
        exact unreadable_numberOf hnumber
      · cases h
        exact .invalid

/-- What is left behind a character and blanks is shorter. -/
theorem length_lt_of_skipBlanks {c : Char} {cs rest : List Char} (h : skipBlanks cs = c :: rest) :
    rest.length < cs.length := by
  have hle := length_skipBlanks_le cs
  rw [h, List.length_cons] at hle
  exact hle

mutual

theorem unreadable_readValue (room : Room) (cs : List Char) (h : readValue room cs = .error f) :
    Unreadable f := by
  rw [readValue] at h
  split at h
  · cases h
    exact .invalid
  · split at h
    · cases h
      exact .invalid
    · cases h
  · next r hblanks =>
    have hless := length_lt_of_skipBlanks hblanks
    split at h
    · cases h
      exact .tooDeep _
    · next inner _ =>
      split at h
      · cases h
      · split at h
        · next hitems =>
          cases h
          exact unreadable_readItems inner r hitems
        · cases h
  · next r hblanks =>
    have hless := length_lt_of_skipBlanks hblanks
    split at h
    · cases h
      exact .tooDeep _
    · next inner _ =>
      split at h
      · cases h
      · split at h
        · next hmembers =>
          cases h
          exact unreadable_readMembers inner r hmembers
        · cases h
  · split at h
    · next hscalar =>
      cases h
      exact unreadable_readScalar hscalar
    · cases h
termination_by (cs.length, 0)
decreasing_by
  · exact Prod.Lex.left _ _ hless
  · exact Prod.Lex.left _ _ hless

theorem unreadable_readItems (room : Room) (cs : List Char) (h : readItems room cs = .error f) :
    Unreadable f := by
  rw [readItems] at h
  split at h
  · next hvalue =>
    cases h
    exact unreadable_readValue room cs hvalue
  · next r hr hvalue =>
    split at h
    · cases h
    · next r' hblanks =>
      have hless := Nat.lt_trans (length_lt_of_skipBlanks hblanks) hr
      split at h
      · next hitems =>
        cases h
        exact unreadable_readItems room r' hitems
      · cases h
    · cases h
      exact .invalid
termination_by (cs.length, 1)
decreasing_by
  · exact Prod.Lex.right _ (by omega)
  · exact Prod.Lex.left _ _ hless

theorem unreadable_readMembers (room : Room) (cs : List Char)
    (h : readMembers room cs = .error f) : Unreadable f := by
  rw [readMembers] at h
  split at h
  · next r₁ hkey =>
    split at h
    · cases h
      exact .invalid
    · next r₂ hr₂ hstring =>
      split at h
      · next r₃ hcolon =>
        have hless := Nat.lt_trans (length_lt_of_skipBlanks hcolon)
          (Nat.lt_trans hr₂ (length_lt_of_skipBlanks hkey))
        split at h
        · next hvalue =>
          cases h
          exact unreadable_readValue room r₃ hvalue
        · next r₄ hr₄ hvalue =>
          split at h
          · cases h
          · next r₅ hcomma =>
            have hless := Nat.lt_trans (length_lt_of_skipBlanks hcomma) (Nat.lt_trans hr₄ hless)
            split at h
            · next hmembers =>
              cases h
              exact unreadable_readMembers room r₅ hmembers
            · cases h
          · cases h
            exact .invalid
      · cases h
        exact .invalid
  · cases h
    exact .invalid
termination_by (cs.length, 1)
decreasing_by
  · exact Prod.Lex.left _ _ hless
  · exact Prod.Lex.left _ _ hless

end

/-- **Why a text cannot be read**: it is not in the notation, or holds a number beyond bounds, or
nests deeper than there is room. -/
theorem unreadable_read {room : Room} {s : String} (h : read room s = .error f) :
    Unreadable f := by
  rw [read] at h
  split at h
  · next hvalue =>
    cases h
    exact unreadable_readValue room s.toList hvalue
  · split at h
    · cases h
    · cases h
      exact .invalid

end BusinessRules.Json

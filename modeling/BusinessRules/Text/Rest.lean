/-!
# What is left of a sequence

A reader takes a part from the front of a sequence and hands on what is left.  That what is left is
shorter goes with it, so that reading on ends.

## Main definitions

* `Remainder`: what is left after a part that may be empty
* `Rest`: what is left after a part that is not empty
-/

namespace BusinessRules

/-- What is left of a sequence after a part that may be empty. -/
abbrev Remainder {α : Type} (xs : List α) := { rest : List α // rest.length ≤ xs.length }

/-- What is left of a sequence after a part that is not empty. -/
abbrev Rest {α : Type} (xs : List α) := { rest : List α // rest.length < xs.length }

variable {α : Type} {x : α} {xs : List α}

namespace Remainder

/-- Nothing is taken. -/
def all (xs : List α) : Remainder xs := ⟨xs, Nat.le_refl _⟩

/-- Nothing is left. -/
def nothing (xs : List α) : Remainder xs := ⟨[], Nat.zero_le _⟩

/-- What is left after some elements. -/
def drop (n : Nat) (xs : List α) : Remainder xs := ⟨xs.drop n, (List.drop_sublist n xs).length_le⟩

/-- What is left of a sequence is left of one with an element more in front as well. -/
def widen (r : Remainder xs) : Rest (x :: xs) := ⟨r.1, Nat.lt_succ_of_le r.2⟩

/-- What is left in the end if reading goes on. -/
def after (r : Remainder xs) (s : Remainder r.1) : Remainder xs := ⟨s.1, Nat.le_trans s.2 r.2⟩

end Remainder

namespace Rest

/-- What is left after the first element. -/
def tail (x : α) (xs : List α) : Rest (x :: xs) := ⟨xs, Nat.lt_succ_self _⟩

/-- A part may be empty, but is not. -/
def toRemainder (r : Rest xs) : Remainder xs := ⟨r.1, Nat.le_of_lt r.2⟩

/-- What is left of a sequence is left of one with an element more in front as well. -/
def widen (r : Rest xs) : Rest (x :: xs) := ⟨r.1, Nat.lt_succ_of_lt r.2⟩

/-- What is left in the end if reading goes on. -/
def after (r : Rest xs) (s : Remainder r.1) : Rest xs := ⟨s.1, Nat.lt_of_le_of_lt s.2 r.2⟩

end Rest

end BusinessRules

import BusinessRules.Text.Rest

/-!
# Hexadecimal digits

## Main definitions

* `hexValue?`: the value of a digit
* `hexNumber?`: the number that digits spell
* `takeHex?`: the number at the start of a text
-/

namespace BusinessRules.Text

/-- The value of a hexadecimal digit of either case. -/
def hexValue? (c : Char) : Option Nat :=
  if c.isDigit then some (c.toNat - '0'.toNat)
  else if 'a' ≤ c && c ≤ 'f' then some (c.toNat - 'a'.toNat + 10)
  else if 'A' ≤ c && c ≤ 'F' then some (c.toNat - 'A'.toNat + 10)
  else none

/-- The number that hexadecimal digits spell, the first one counting most. -/
def hexNumber? (cs : List Char) : Option Nat :=
  (cs.mapM hexValue?).map fun ds => ds.foldl (fun n d => 16 * n + d) 0

/-- The number that exactly so many digits at the start of a text spell, and what is left. -/
def takeHex? (digits : Nat) (cs : List Char) : Option (Nat × Remainder cs) :=
  if cs.length < digits then none
  else (hexNumber? (cs.take digits)).map fun n => (n, .drop digits cs)

end BusinessRules.Text

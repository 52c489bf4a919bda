/-!
# Searching texts

## Main definitions

* `indexFrom?`: the first place where a text occurs in another one
* `occursIn`: whether it occurs
-/

namespace BusinessRules.Text

/-- The first place where a text occurs in another one, counted from a given number. -/
def indexFrom? (part : List Char) : List Char → Nat → Option Nat
  | [], i => if part.isEmpty then some i else none
  | c :: cs, i => if part.isPrefixOf (c :: cs) then some i else indexFrom? part cs (i + 1)

/-- Whether a text occurs in another one. -/
def occursIn (part whole : List Char) : Bool := (indexFrom? part whole 0).isSome

end BusinessRules.Text

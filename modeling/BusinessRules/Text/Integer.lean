import BusinessRules.Text.Blank
import BusinessRules.Text.Digit

/-!
# Whole numbers in settings and fields

A text stands for a whole number if it consists of ASCII digits with an optional sign, single
underscores between digits, and an optional point that only zeros follow.  Blanks around it are
ignored.  Zeros in front are ignored as well, those in front of a minus sign too; behind a minus
sign there must be none.  The digits that count are limited in number.

## Main definitions

* `wholeNumber?`: the number that a text stands for
-/

namespace BusinessRules.Text

/-- The blanks around a number: all separators but the field separators of ASCII. -/
def isSpace (c : Char) : Bool := isBlank c && !(0x1C ≤ c.toNat && c.toNat ≤ 0x1F)

/-- A text without the spaces at its two ends. -/
def trimSpaces (cs : List Char) : List Char :=
  ((cs.dropWhile isSpace).reverse.dropWhile isSpace).reverse

/-- Whether the digits that count may begin here: at a digit or a minus sign. -/
def startsNumber (c : Char) : Bool := c.isDigit || c = '-'

/-- A text without leading zeros and the underscores among them; the last zero stays if nothing
but zeros precedes the point or the end. -/
def dropLeadingZeros : List Char → Option (List Char)
  | '0' :: cs =>
    match cs.dropWhile fun c => c = '0' || c = '_' with
    | [] => some (cs.getLast?.getD '0' :: [])
    | '.' :: rest =>
      some ((cs.take (cs.length - rest.length - 1)).getLast?.getD '0' :: '.' :: rest)
    | c :: rest => if startsNumber c then some (c :: rest) else none
  | c :: cs => if startsNumber c then some (c :: cs) else none
  | [] => none

/-- A text without a point that one or more zeros follow up to the end. -/
def dropZeroFraction (cs : List Char) : List Char :=
  let fraction := (cs.dropWhile (· != '.')).drop 1
  if !fraction.isEmpty && fraction.all (· = '0') then cs.takeWhile (· != '.') else cs

/-- A text without the underscores in it, which stand one by one and not at its ends. -/
def dropUnderscores? (cs : List Char) : Option (List Char) :=
  if (cs.splitOn '_').all (!·.isEmpty) then some (cs.filter (· != '_')) else none

/-- The number of digits that a whole number may have. -/
def maxWholeDigits : Nat := 4300

/-- The number that digits without superfluous zeros spell. -/
def plainDigits? (ds : List Char) : Option Nat :=
  if ds.isEmpty || !ds.all Char.isDigit || maxWholeDigits < ds.length then none
  else if ds.head? = some '0' && ds ≠ ['0'] then none
  else some (digitsValue ds)

/-- The number that digits spell, possibly behind a minus sign. -/
def signedDigits? : List Char → Option Int
  | '-' :: ds => (plainDigits? ds).map fun n => -(n : Int)
  | ds => (plainDigits? ds).map fun n => (n : Int)

/-- A text without a plus sign in front, which no minus sign follows. -/
def dropPlus? : List Char → Option (List Char)
  | '+' :: '-' :: _ => none
  | '+' :: cs => some cs
  | cs => some cs

/-- The whole number that a text stands for. -/
def wholeNumber? (s : String) : Option Int := do
  let unsigned ← dropPlus? (trimSpaces s.toList)
  let digits ← dropLeadingZeros unsigned
  signedDigits? (← dropUnderscores? (dropZeroFraction digits))

end BusinessRules.Text

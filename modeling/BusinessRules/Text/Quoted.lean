import BusinessRules.Text.CodePoint
import BusinessRules.Text.Printable

/-!
# Quoted texts

How a text or a byte string is shown inside a larger message: between single quotes, or between
double quotes if it holds a single quote and no double one, with backslash escapes for the quote,
the backslash, the layout controls and everything that is not printable, which includes the code
points of no character.

## Main definitions

* `quote`: the quoted form of a text
* `quoteBytes`: the quoted form of a byte string
-/

namespace BusinessRules.Text

/-- The lower-case hexadecimal digits of a number, padded with zeros to a width. -/
def hex (width n : Nat) : List Char :=
  let ds := Nat.toDigits 16 n
  List.replicate (width - ds.length) '0' ++ ds

/-- The quote mark that a text is put between. -/
def quoteMark (cs : List Char) : Char :=
  if cs.contains '\'' && !cs.contains '"' then '"' else '\''

/-- The escape of a code point that is not printable: two, four or eight hexadecimal digits. -/
def escapeCode (n : Nat) : List Char :=
  if n < 0x100 then '\\' :: 'x' :: hex 2 n
  else if n < 0x10000 then '\\' :: 'u' :: hex 4 n
  else '\\' :: 'U' :: hex 8 n

/-- How one character is written between the given quote marks. -/
def escapeChar (mark c : Char) : List Char :=
  if c = mark || c = '\\' then ['\\', c]
  else if c = '\n' then ['\\', 'n']
  else if c = '\r' then ['\\', 'r']
  else if c = '\t' then ['\\', 't']
  else if isPrintable c then [c]
  else escapeCode c.toNat

/-- How a code point is written between the given quote marks. -/
def escapeCodePoint (mark : Char) (n : Nat) : List Char :=
  if isHalf n then escapeCode n else escapeChar mark (Char.ofNat n)

/-- The quoted form of a text. -/
def quote (s : String) : String :=
  let cs := s.toList
  let mark := quoteMark cs
  String.ofList (mark :: (codePoints cs).flatMap (escapeCodePoint mark) ++ [mark])

/-- How one byte is written between the given quote marks: bytes outside ASCII are escaped. -/
def escapeByte (mark : Char) (b : UInt8) : List Char :=
  if b.toNat < 0x7F then escapeChar mark (Char.ofNat b.toNat) else escapeCode b.toNat

/-- The quoted form of a byte string, marked by a leading letter. -/
def quoteBytes (bs : List UInt8) : String :=
  let mark := quoteMark (bs.map fun b => Char.ofNat b.toNat)
  String.ofList ('b' :: mark :: bs.flatMap (escapeByte mark) ++ [mark])

end BusinessRules.Text

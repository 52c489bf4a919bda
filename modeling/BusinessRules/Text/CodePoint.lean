/-!
# Code points

A text stands for a sequence of code points.  Documents may spell half of a surrogate pair on its
own, and no character has the code point of such a half.  A text keeps it as two characters, a
noncharacter and a private character with the same last bits; the noncharacter itself is written
twice.  Whoever reads characters into a text, or shows or orders texts, goes through their code
points.

## Main definitions

* `isHighHalf`, `isLowHalf`: the halves of surrogate pairs
* `ofCodePoint`: how a text keeps a code point
* `codePoints`: the code points that a text stands for
* `ofUtf8?`: the text that bytes spell
-/

namespace BusinessRules.Text

/-- Whether a code point is the first half of a surrogate pair. -/
def isHighHalf (n : Nat) : Bool := 0xD800 ≤ n && n < 0xDC00

/-- Whether a code point is the second half of a surrogate pair. -/
def isLowHalf (n : Nat) : Bool := 0xDC00 ≤ n && n < 0xE000

/-- Whether a code point is half of a surrogate pair. -/
def isHalf (n : Nat) : Bool := isHighHalf n || isLowHalf n

/-- The code point of two halves that make up a pair. -/
def joinHalves (high low : Nat) : Nat := 0x10000 + 0x400 * (high - 0xD800) + (low - 0xDC00)

/-- The noncharacter that tells that the next character is not meant by itself. -/
def noncharacter : Char := '\uFFFF'

/-- How far the private character that keeps a half is from it. -/
def halfOffset : Nat := 0x100000

/-- How a text keeps a code point. -/
def ofCodePoint (n : Nat) : List Char :=
  if isHalf n then [noncharacter, Char.ofNat (n + halfOffset)]
  else if n = noncharacter.toNat then [noncharacter, noncharacter]
  else [Char.ofNat n]

/-- How a text keeps characters. -/
def ofCharacters (cs : List Char) : List Char := cs.flatMap fun c => ofCodePoint c.toNat

/-- The code point that two characters keep, if they keep one together. -/
def kept? (c d : Char) : Option Nat :=
  if c ≠ noncharacter then none
  else if d = noncharacter then some noncharacter.toNat
  else if isHalf (d.toNat - halfOffset) then some (d.toNat - halfOffset)
  else none

/-- The code points that a text stands for. -/
def codePoints : List Char → List Nat
  | [] => []
  | [c] => [c.toNat]
  | c :: d :: cs =>
    match kept? c d with
    | some n => n :: codePoints cs
    | none => c.toNat :: codePoints (d :: cs)

/-- The text that bytes spell, if they spell one. -/
def ofUtf8? (bs : List UInt8) : Option String :=
  (String.fromUTF8? ⟨bs.toArray⟩).map fun s => String.ofList (ofCharacters s.toList)

end BusinessRules.Text

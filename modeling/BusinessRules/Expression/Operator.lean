import BusinessRules.Expression.Mask

/-!
# Arithmetic operators

The four operator characters also serve as signs, and a sign may belong to the power of ten of a
numeral.  An occurrence is an operator between two operands exactly if an operand, and not another
operator or an opening parenthesis, ends in front of it, and that operand is not the unfinished
numeral whose power of ten the sign begins.

## Main definitions

* `endsInPowerMark`: whether a text ends with the mantissa and the mark of a power of ten
* `isBinary`: whether an operator stands between two operands at a place
* `firstBinary?`, `lastBinary?`: the first and the last such place for one operator
-/

namespace BusinessRules.Expression

/-- The arithmetic operators. -/
def operators : List Char := ['+', '-', '*', '/']

/-- The characters of ASCII names and numbers. -/
def isWordChar (c : Char) : Bool := c.isAlphanum || c = '_' || c = '.'

/-- The characters of a mantissa. -/
def isMantissaChar (c : Char) : Bool := Text.isDigit c || c = '.'

/-- A mantissa: digits with at most one point among or around them. -/
def isMantissa (cs : List Char) : Bool :=
  cs.all isMantissaChar && cs.any Text.isDigit && cs.count '.' ≤ 1

/-- Whether a reversed text begins with a mantissa in front of which no word character stands. -/
def startsWithMantissa (reversed : List Char) : Bool :=
  let run := reversed.takeWhile isMantissaChar
  (List.range run.length).any fun n =>
    isMantissa (reversed.take (n + 1)) && !(reversed[n + 1]?.any isWordChar)

/-- Whether a text ends with a mantissa and the mark of a power of ten, at most a line break
following. -/
def endsInPowerMark (before : List Char) : Bool :=
  let reversed := before.reverse
  match (if reversed.head? = some '\n' then reversed.drop 1 else reversed) with
  | [] => false
  | mark :: rest => (mark = 'e' || mark = 'E') && startsWithMantissa rest

/-- Whether an operand ends at the end of a masked text. -/
def endsInOperand (before : List Char) : Bool :=
  match (Text.trimEnd before).getLast? with
  | none => false
  | some c => !operators.contains c && c != '('

/-- Whether an operator at a place of a masked text stands between two operands. -/
def isBinary (masked : List Char) (i : Nat) : Bool :=
  let before := masked.take i
  !endsInPowerMark before && endsInOperand before

/-- The first place where an operator stands between two operands. -/
def firstBinary? (op : Char) (masked : List Char) : Option Nat :=
  (occurrences op masked).find? (isBinary masked)

/-- The last place where an operator stands between two operands. -/
def lastBinary? (op : Char) (masked : List Char) : Option Nat :=
  (occurrences op masked).reverse.find? (isBinary masked)

theorem lt_of_getElem?_mask {cs : List Char} {i : Nat} {c : Char} (h : (mask cs)[i]? = some c) :
    i < cs.length := by
  have := (List.getElem?_eq_some_iff.1 h).1
  simpa using this

/-- What is found is an occurrence of the operator. -/
theorem getElem?_of_firstBinary? {op : Char} {masked : List Char} {i : Nat}
    (h : firstBinary? op masked = some i) : masked[i]? = some op :=
  mem_occurrences.1 (List.mem_of_find?_eq_some h)

theorem getElem?_of_lastBinary? {op : Char} {masked : List Char} {i : Nat}
    (h : lastBinary? op masked = some i) : masked[i]? = some op :=
  mem_occurrences.1 (List.mem_reverse.1 (List.mem_of_find?_eq_some h))

end BusinessRules.Expression

import BusinessRules.Decimal.Arithmetic
import BusinessRules.Expression.Group

/-!
# Evaluation of arithmetic texts

A text is taken apart one operator at a time: at its first `+`, else at its last `-`, else at its
first `*`, else at its last `/`; what holds none of them is an operand.  Groups are replaced by
the literals of their values before any operator is looked for.

## Main definitions

* `Names`: what a name stands for
* `evaluateFlat`: the value of a trimmed text without groups
* `evaluateArithmetic`: the value of any arithmetic text
-/

namespace BusinessRules.Expression

/-- What a text stands for when it is read as a name. -/
abbrev Names := String → Outcome (Option Value)

/-- The result of an arithmetic operation as a value. -/
def ofArithmetic : Except ArithmeticFault Decimal → Outcome Value
  | .ok n => .ok (.number n)
  | .error f => .error (.arithmetic f)

/-- The value of an operator between two values. -/
def operate (p : Precision) (op : Char) (v w : Value) : Outcome Value :=
  let x := v.toNumber
  let y := w.toNumber
  if op = '+' then ofArithmetic (x.add p y)
  else if op = '-' then ofArithmetic (x.sub p y)
  else if op = '*' then ofArithmetic (x.mul p y)
  else
    match y.equalsZero with
    | .error f => .error (.arithmetic f)
    | .ok true => .error .divisionByZero
    | .ok false => ofArithmetic (x.div p y)

/-- The operator at which a masked text is taken apart, and its place. -/
def mainOperator? (masked : List Char) : Option (Char × Nat) :=
  ((firstBinary? '+' masked).map ('+', ·)).or <|
    ((lastBinary? '-' masked).map ('-', ·)).or <|
      ((firstBinary? '*' masked).map ('*', ·)).or <|
        (lastBinary? '/' masked).map ('/', ·)

/-- The first characters of identifiers. -/
def isNameStart (c : Char) : Bool := c.isAlpha || c = '_'

/-- The further characters of identifiers. -/
def isNameChar (c : Char) : Bool := c.isAlphanum || c = '_'

/-- An identifier: a letter or underscore of ASCII, then letters, digits and underscores. -/
def isIdentifier : List Char → Bool
  | [] => false
  | c :: cs => isNameStart c && cs.all isNameChar

/-- The value of a name; an unbound identifier and any other text are different faults. -/
def resolve (names : Names) (text : List Char) : Outcome Value :=
  match names (String.ofList text) with
  | .error f => .error f
  | .ok (some v) => .ok v
  | .ok none =>
    if isIdentifier text then .error (.unresolved (String.ofList text))
    else .error (.unreadable (String.ofList text))

/-- The sign that a text begins with and what it applies to. -/
def signed? : List Char → Option (Char × List Char)
  | c :: d :: cs => if c = '+' || c = '-' then some (c, d :: cs) else none
  | _ => none

/-- The value of a sign in front of a value.  Only a minus computes. -/
def applySign (p : Precision) (sign : Char) (v : Value) : Outcome Value :=
  if sign = '-' then ofArithmetic (v.toNumber.neg p) else .ok (.number v.toNumber)

theorem lt_of_mainOperator? {cs : List Char} {op : Char} {i : Nat}
    (h : mainOperator? (mask cs) = some (op, i)) : i < cs.length := by
  simp only [mainOperator?, Option.or_eq_some_iff, Option.map_eq_some_iff, Prod.mk.injEq] at h
  rcases h with ⟨j, hj, -, rfl⟩ | ⟨-, ⟨j, hj, -, rfl⟩ | ⟨-, ⟨j, hj, -, rfl⟩ | ⟨-, j, hj, -, rfl⟩⟩⟩
  · exact lt_of_getElem?_mask (getElem?_of_firstBinary? hj)
  · exact lt_of_getElem?_mask (getElem?_of_lastBinary? hj)
  · exact lt_of_getElem?_mask (getElem?_of_firstBinary? hj)
  · exact lt_of_getElem?_mask (getElem?_of_lastBinary? hj)

theorem length_of_signed? {cs rest : List Char} {sign : Char}
    (h : signed? cs = some (sign, rest)) : rest.length < cs.length := by
  unfold signed? at h
  split at h
  · split at h
    · cases h; simp
    · cases h
  · cases h

/-- The value of a trimmed text without groups. -/
def evaluateFlat (p : Precision) (names : Names) (cs : List Char) : Outcome Value :=
  if (mask cs).contains ')' then .error (.unmatchedParenthesis (String.ofList cs))
  else
    match _hop : mainOperator? (mask cs) with
    | some (op, i) =>
      match evaluateFlat p names (Text.trim (cs.take i)) with
      | .error f => .error f
      | .ok left =>
        match evaluateFlat p names (Text.trim (cs.drop (i + 1))) with
        | .error f => .error f
        | .ok right => operate p op left right
    | none =>
      if cs.isEmpty then .error .missingOperand
      else
        match Literal.read? cs with
        | .error f => .error f
        | .ok (some v) => .ok v
        | .ok none =>
          match _hsign : signed? cs with
          | some (sign, rest) =>
            match evaluateFlat p names (Text.trim rest) with
            | .error f => .error f
            | .ok v => applySign p sign v
          | none => resolve names cs
termination_by cs.length
decreasing_by
  · have := lt_of_mainOperator? _hop
    have := Text.length_trim_le (cs.take i)
    simp only [List.length_take] at this
    omega
  · have := lt_of_mainOperator? _hop
    have := Text.length_trim_le (cs.drop (i + 1))
    simp only [List.length_drop] at this
    omega
  · have := length_of_signed? _hsign
    have := Text.length_trim_le rest
    omega

/-- The value of a trimmed text that may hold groups. -/
def evaluateGroups (p : Precision) (names : Names) (cs : List Char) : Outcome Value :=
  if hasGroup cs then
    match _hgroup : lastGroup? cs with
    | none => .error (.unmatchedParenthesis (String.ofList cs))
    | some (before, inside, after) =>
      match evaluateFlat p names (Text.trim inside) with
      | .error f => .error f
      | .ok v =>
        match _hliteral : Literal.format v with
        | .error _ => .error (.ungroupable (String.ofList cs))
        | .ok literal => evaluateGroups p names (Text.trim (before ++ literal ++ after))
  else evaluateFlat p names cs
termination_by openings cs
decreasing_by
  exact Nat.lt_of_le_of_lt (openings_trim _) (openings_splice _hgroup _hliteral)

/-- The value of any arithmetic text. -/
def evaluateArithmetic (p : Precision) (names : Names) (text : List Char) : Outcome Value :=
  evaluateGroups p names (Text.trim text)

end BusinessRules.Expression

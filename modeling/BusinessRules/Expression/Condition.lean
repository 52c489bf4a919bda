import BusinessRules.Expression.Arithmetic
import BusinessRules.Facts
import BusinessRules.Settings

/-!
# Conditions

A condition is a conjunction of disjunctions of comparisons.  `and` and `&&` are looked for first,
then `or` and `||`, in any case and between blanks, all outside quotes; so `or` binds tighter than
`and`.  The parts are evaluated from left to right, and only as far as the outcome needs.

## Main definitions

* `parts`: the parts of a text between the occurrences of a connective
* `evaluateComparison`: the truth of a text without connectives
* `evaluateBoolean`: the truth of any condition text
* `evaluateCondition`: the truth of a condition in a context; a blank one holds
-/

namespace BusinessRules.Expression

/-- The words that connect comparisons. -/
inductive Connective where
  | and
  | or
  deriving DecidableEq, Repr

/-- The spellings of a connective, in lower case. -/
def Connective.spellings : Connective → List (List Char)
  | .and => [['a', 'n', 'd'], ['&', '&']]
  | .or => [['o', 'r'], ['|', '|']]

/-- A text together with its mask, character by character. -/
abbrev Masked := List (Char × Char)

/-- A text together with its mask. -/
def withMask (cs : List Char) : Masked := cs.zip (mask cs)

/-- What follows a word at the start of a masked text, in any case. -/
def afterWord? : List Char → Masked → Option Masked
  | [], xs => some xs
  | _ :: _, [] => none
  | w :: ws, x :: xs => if x.2.toLower = w then afterWord? ws xs else none

/-- What follows blanks, of which there must be some. -/
def afterBlanks? : Masked → Option Masked
  | [] => none
  | x :: xs => if Text.isBlank x.2 then some (xs.dropWhile fun y => Text.isBlank y.2) else none

/-- What follows a connective and the blanks on both sides of it. -/
def afterConnective? (k : Connective) (xs : Masked) : Option Masked :=
  (afterBlanks? xs).bind fun ys =>
    (k.spellings.findSome? fun word => afterWord? word ys).bind afterBlanks?

theorem length_afterBlanks?_lt {xs ys : Masked} (h : afterBlanks? xs = some ys) :
    ys.length < xs.length := by
  unfold afterBlanks? at h
  split at h
  · cases h
  · split at h
    · next x xs _ =>
      cases h
      have := (List.dropWhile_suffix (fun y : Char × Char => Text.isBlank y.2) (l := xs)).length_le
      simp only [List.length_cons]
      omega
    · cases h

theorem length_afterWord?_le {word : List Char} {xs ys : Masked}
    (h : afterWord? word xs = some ys) : ys.length ≤ xs.length := by
  induction word generalizing xs with
  | nil => cases h; exact Nat.le_refl _
  | cons w ws ih =>
    cases xs with
    | nil => cases h
    | cons x xs =>
      simp only [afterWord?] at h
      split at h
      · have := ih h
        simp only [List.length_cons]
        omega
      · cases h

/-- A connective takes up room. -/
theorem length_afterConnective?_lt {k : Connective} {xs ys : Masked}
    (h : afterConnective? k xs = some ys) : ys.length < xs.length := by
  simp only [afterConnective?, Option.bind_eq_some_iff] at h
  obtain ⟨as, ha, bs, hb, hc⟩ := h
  obtain ⟨word, -, hw⟩ := List.exists_of_findSome?_eq_some hb
  have := length_afterBlanks?_lt ha
  have := length_afterWord?_le hw
  have := length_afterBlanks?_lt hc
  omega

/-- The parts of a masked text between the occurrences of a connective, the first part following
the given characters in reverse. -/
def splitFrom (k : Connective) (front : List Char) (xs : Masked) : List (List Char) :=
  match _h : afterConnective? k xs with
  | some rest => front.reverse :: splitFrom k [] rest
  | none =>
    match xs with
    | [] => [front.reverse]
    | x :: xs => splitFrom k (x.1 :: front) xs
termination_by xs.length
decreasing_by
  · exact length_afterConnective?_lt _h
  · simp

/-- The parts of a text between the occurrences of a connective, trimmed. -/
def parts (k : Connective) (cs : List Char) : List (List Char) :=
  (splitFrom k [] (withMask cs)).map Text.trim

/-- The comparison at which a masked text is taken apart, and its place: the first operator in
order of precedence that occurs, where it occurs first. -/
def mainComparison? (masked : List Char) : Option (Comparison × Nat) :=
  Comparison.all.findSome? fun op => (Text.indexFrom? op.symbol.toList masked 0).map (op, ·)

/-- The truth of a trimmed text without connectives: of a comparison, or of the value of an
arithmetic text. -/
def evaluateComparison (p : Precision) (names : Names) (cs : List Char) : Outcome Bool :=
  match mainComparison? (mask cs) with
  | some (op, i) =>
    match evaluateArithmetic p names (cs.take i) with
    | .error f => .error f
    | .ok left =>
      match evaluateArithmetic p names (cs.drop (i + op.symbol.length)) with
      | .error f => .error f
      | .ok right => Value.compareWith op left right
  | none =>
    match evaluateArithmetic p names cs with
    | .error f => .error f
    | .ok v => v.isTrue

/-- Whether all tests succeed, up to the first that does not. -/
def allOf {α : Type} (test : α → Outcome Bool) : List α → Outcome Bool
  | [] => .ok true
  | x :: xs =>
    match test x with
    | .ok true => allOf test xs
    | other => other

/-- Whether any test succeeds, up to the first that does. -/
def anyOf {α : Type} (test : α → Outcome Bool) : List α → Outcome Bool
  | [] => .ok false
  | x :: xs =>
    match test x with
    | .ok false => anyOf test xs
    | other => other

/-- The truth of a condition text. -/
def evaluateBoolean (p : Precision) (names : Names) (text : List Char) : Outcome Bool :=
  allOf (fun part => anyOf (evaluateComparison p names) (parts .or part))
    (parts .and (Text.trim text))

/-- The truth of a condition in a context.  A blank condition holds. -/
def evaluateCondition (env : Environment) (context : Context) (text : String) : Outcome Bool :=
  if Text.isBlankText text then .ok true
  else
    match env.precision with
    | .error f => .error f
    | .ok p => evaluateBoolean p context.values text.toList

end BusinessRules.Expression

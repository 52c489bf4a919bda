import BusinessRules.Binary64.Basic
import BusinessRules.Datum.Basic
import BusinessRules.Decimal.Numeral
import BusinessRules.Fault
import BusinessRules.Text.Hexadecimal

/-!
# What unquoted words denote

An unquoted word of the notation with indentation denotes a truth value, a number, nothing, or
itself.  Whole numbers may be in base two, eight, ten, sixteen or sixty, and digits may be
grouped by underscores; a number with a point is a binary number.  Dates are texts.

## Main definitions

* `Scalar.whole?`, `Scalar.real?`: the numbers
* `Scalar.denote`: what a word denotes
-/

namespace BusinessRules.Yaml.Scalar

/-- The words for nothing. -/
def nothingWords : List String := ["", "~", "null", "Null", "NULL"]

/-- The words for truth. -/
def trueWords : List String :=
  ["yes", "Yes", "YES", "true", "True", "TRUE", "on", "On", "ON"]

/-- The words for falsehood. -/
def falseWords : List String :=
  ["no", "No", "NO", "false", "False", "FALSE", "off", "Off", "OFF"]

/-- The words that only have a meaning as keys. -/
def keyWords : List String := ["=", "<<"]

/-! ## Whole numbers -/

/-- The digits of a number without the underscores that group them. -/
def ungroup (cs : List Char) : List Char := cs.filter (· ≠ '_')

/-- The number that digits spell in a base, the first one counting most. -/
def inBase (base : Nat) (ds : List Nat) : Nat := ds.foldl (fun n d => base * n + d) 0

/-- The number of grouped digits in a base of at most sixteen. -/
def grouped? (base : Nat) (cs : List Char) : Option Nat :=
  match (ungroup cs).mapM Text.hexValue? with
  | none => none
  | some ds => if !ds.isEmpty && ds.all (· < base) then some (inBase base ds) else none

/-- Whether a text begins with a digit other than zero. -/
def startsPositive : List Char → Bool
  | c :: _ => c.isDigit && c ≠ '0'
  | [] => false

/-- A digit of base sixty, in one or two decimal digits. -/
def sixtieth? (cs : List Char) : Option Nat :=
  if cs.all Char.isDigit && cs.length ≤ 2 then (grouped? 10 cs).filter (· < 60) else none

/-- A number in base sixty, its digits separated by colons. -/
def sexagesimal? (cs : List Char) : Option Nat :=
  match cs.splitOn ':' with
  | first :: d :: ds => do
    let n ← grouped? 10 first
    let ns ← (d :: ds).mapM sixtieth?
    return inBase 60 (n :: ns)
  | _ => none

/-- A whole number without its sign. -/
def unsigned? : List Char → Option Nat
  | ['0'] => some 0
  | '0' :: 'b' :: r => grouped? 2 r
  | '0' :: 'x' :: r => grouped? 16 r
  | '0' :: r => grouped? 8 ('0' :: r)
  | cs => if startsPositive cs then (grouped? 10 cs).or (sexagesimal? cs) else none

/-- The whole number of a word. -/
def whole? (cs : List Char) : Option Int :=
  let (negative, body) := Numeral.takeSign cs
  (unsigned? body).map (Decimal.toSigned negative)

/-! ## Numbers with a point -/

/-- Whether a text is empty or a power of ten with its sign. -/
def isPower : List Char → Bool
  | [] => true
  | e :: s :: ds =>
    (e = 'e' || e = 'E') && (s = '+' || s = '-') && !ds.isEmpty && ds.all Char.isDigit
  | _ => false

/-- Whether a character is a digit or groups digits. -/
def isGrouped (c : Char) : Bool := c.isDigit || c = '_'

/-- Whether a text begins with a digit. -/
def startsDigit : List Char → Bool
  | c :: _ => c.isDigit
  | [] => false

/-- Whether a text is a decimal number with a point.  It may begin with the point only if it has
no sign and a digit follows. -/
def isPointed (isSigned : Bool) (cs : List Char) : Bool :=
  match cs with
  | '.' :: r => !isSigned && startsDigit r && isPower (r.dropWhile isGrouped)
  | _ =>
    startsDigit cs &&
      match cs.dropWhile isGrouped with
      | '.' :: r => isPower (r.dropWhile isGrouped)
      | _ => false

/-- The binary number of a word. -/
def real? (cs : List Char) : Option Binary64 :=
  let (negative, body) := Numeral.takeSign cs
  let isSigned := body.length < cs.length
  let word := String.ofList body
  if ["inf", "Inf", "INF"].any fun w => word = "." ++ w then some (.infinite negative)
  else if !isSigned && ["nan", "NaN", "NAN"].any fun w => word = "." ++ w then some .undefined
  else if isPointed isSigned body then
    (Numeral.read? (ungroup cs)).map fun n =>
      .ofDecimal (.finite n.negative n.coefficient n.exponent)
  else none

/-! ## Words -/

/-- The digits of a word that is a decimal whole number, too many or not. -/
def decimalDigits (cs : List Char) : Nat :=
  let body := (Numeral.takeSign cs).2
  let digits := ungroup body
  if startsPositive body && digits.all Char.isDigit then digits.length else 0

/-- What a word denotes.  A word that is only a key denotes nothing here. -/
def denote (cs : List Char) : Outcome Datum :=
  let word := String.ofList cs
  if nothingWords.contains word then .ok .null
  else if trueWords.contains word then .ok (.bool true)
  else if falseWords.contains word then .ok (.bool false)
  else if keyWords.contains word then .error .invalidYaml
  else if Text.maxDigits < decimalDigits cs then .error (.numberTooLong (decimalDigits cs))
  else
    match whole? cs, real? cs with
    | some n, _ => .ok (.int n)
    | none, some x => .ok (.float x)
    | none, none => .ok (.text word)

end BusinessRules.Yaml.Scalar

import BusinessRules.Datum.Canonical

/-!
# Literals

A literal denotes a value by itself: a numeral, a text between two quote marks of one kind that do
not occur in it, or one of the words `true`, `false` and `null` in any case.  Every value but a
collection, and a text that holds both quote marks, has a literal.

## Main definitions

* `Literal.read?`: the value that a text denotes, if it is a literal
* `Literal.format`: the literal of a value
-/

namespace BusinessRules.Literal

/-- The two characters that may enclose a text. -/
def isQuote (c : Char) : Bool := c = '\'' || c = '"'

/-- The text that a quoted literal encloses. -/
def unquote? : List Char → Option (List Char)
  | [] => none
  | q :: cs =>
    if isQuote q && cs.getLast? == some q && !cs.dropLast.contains q then some cs.dropLast else none

/-- The value that a word denotes. -/
def word? (cs : List Char) : Option Value :=
  let word := String.ofList (cs.map Char.toLower)
  if word = "true" then some (.bool true)
  else if word = "false" then some (.bool false)
  else if word = "null" then some .null
  else none

/-- The value that a literal denotes; `none` for a text that is no literal.  A numeral beyond all
representable numbers is a fault. -/
def read? (text : List Char) : Outcome (Option Value) :=
  let cs := Text.trim text
  match Numeral.read? cs with
  | some n =>
    match n.toDecimal? with
    | some d => .ok (some (.number d))
    | none => .error (.arithmetic .invalidOperation)
  | none =>
    match unquote? cs with
    | some inner => .ok (some (.text (String.ofList inner)))
    | none => .ok (word? cs)

/-- The literal of a text: between single quotes if it holds none, else between double quotes. -/
def quoted? (s : String) : Option (List Char) :=
  let cs := s.toList
  if !cs.contains '\'' then some ('\'' :: cs ++ ['\''])
  else if !cs.contains '"' then some ('"' :: cs ++ ['"'])
  else none

/-- The literal of a value. -/
def format : Value → Outcome (List Char)
  | .null => .ok ['n', 'u', 'l', 'l']
  | .bool true => .ok ['t', 'r', 'u', 'e']
  | .bool false => .ok ['f', 'a', 'l', 's', 'e']
  | .number n => .ok n.plain
  | .text s =>
    match quoted? s with
    | some cs => .ok cs
    | none => .error (.unquotable (Text.quote s))
  | .list items =>
    .error (.showing .collectionLiteral ((Value.list items).toDatum.shown .unbounded))

end BusinessRules.Literal

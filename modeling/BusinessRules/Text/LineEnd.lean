/-!
# Line ends

## Main definitions

* `unifyLineEnds`: a text whose lines end the same way
-/

namespace BusinessRules.Text

/-- A text in which a carriage return, with or without a line feed after it, is a line feed. -/
def unifyLineEnds : List Char → List Char
  | '\r' :: '\n' :: r => '\n' :: unifyLineEnds r
  | '\r' :: r => '\n' :: unifyLineEnds r
  | c :: r => c :: unifyLineEnds r
  | [] => []

end BusinessRules.Text

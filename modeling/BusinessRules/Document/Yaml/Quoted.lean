import BusinessRules.Document.Yaml.Layout
import BusinessRules.Fault
import BusinessRules.Text.CodePoint
import BusinessRules.Text.Hexadecimal

/-!
# Quoted texts

Between single quotes a quote is written twice and nothing else is special; between double quotes
a backslash begins an escape.  A quoted text may go on over several lines: a line break with the
blanks around it counts as a space.  An escape by number may ask for a code point that does not
exist, which is a fault of its own.

## Main definitions

* `Quoted.readEscape`: an escape
* `Quoted.read`: a text up to its closing quote
-/

namespace BusinessRules.Yaml.Quoted

/-- The escapes of one character. -/
def escapes : List (Char × Nat) :=
  [('0', 0), ('a', 0x07), ('b', 0x08), ('t', 0x09), ('\t', 0x09), ('n', 0x0A), ('v', 0x0B),
   ('f', 0x0C), ('r', 0x0D), ('e', 0x1B), (' ', 0x20), ('"', 0x22), ('/', 0x2F), ('\\', 0x5C),
   ('N', 0x85), ('_', 0xA0), ('L', 0x2028), ('P', 0x2029)]

/-- The escapes by number, and how many hexadecimal digits they have. -/
def numericEscapes : List (Char × Nat) := [('x', 2), ('u', 4), ('U', 8)]

/-- How a text keeps the code point of an escape. -/
def escaped (n : Nat) : Outcome (List Char) :=
  if n < 0x110000 then .ok (Text.ofCodePoint n)
  else if n < 0x80000000 then .error .escapeOutOfRange
  else .error .escapeTooLarge

/-- The line breaks at the start of a line, with the blanks before them, and what follows.  There
is no marker between documents in a quoted text. -/
def leadingBreaks? (cs : List Char) : Option (List Char × Remainder cs) :=
  if isMarker cs then none
  else
    match h : cs.dropWhile isSpace with
    | [] => some ([], .nothing cs)
    | c :: r =>
      have line : (c :: r).length ≤ cs.length := h ▸ (List.dropWhile_suffix isSpace).length_le
      if isBreak c then
        match leadingBreaks? r with
        | none => none
        | some (breaks, rest) =>
          some (c :: breaks, Remainder.after ⟨c :: r, line⟩ rest.widen.toRemainder)
      else some ([], ⟨c :: r, line⟩)
termination_by cs.length

/-- What an escape denotes, and what follows it.  An escaped line break denotes nothing. -/
def readEscape (cs : List Char) : Outcome (List Char × Rest cs) :=
  match cs with
  | [] => .error .invalidYaml
  | c :: r =>
    if isBreak c then
      match leadingBreaks? r with
      | some (breaks, rest) => .ok (breaks, rest.widen)
      | none => .error .invalidYaml
    else
      match escapes.lookup c, numericEscapes.lookup c with
      | some n, _ => .ok ([Char.ofNat n], .tail c r)
      | none, some digits =>
        match Text.takeHex? digits r with
        | some (n, rest) => (escaped n).map fun t => (t, rest.widen)
        | none => .error .invalidYaml
      | none, none => .error .invalidYaml

/-- The blanks before something on the same line count, those before a line break do not. -/
def keptBlanks (blanks rest : List Char) : List Char :=
  if rest.head?.any isBreak then [] else blanks

/-- The text up to its closing quote, and what follows it. -/
def read (double : Bool) (cs : List Char) : Outcome (List Char × Rest cs) :=
  match cs with
  | [] => .error .invalidYaml
  | c :: r =>
    if isSpace c then
      have blanks : (r.dropWhile isSpace).length ≤ r.length := (List.dropWhile_suffix _).length_le
      match read double (r.dropWhile isSpace) with
      | .error f => .error f
      | .ok (t, rest) =>
        .ok (keptBlanks (c :: r.takeWhile isSpace) (r.dropWhile isSpace) ++ t,
          (Remainder.after ⟨_, blanks⟩ rest.toRemainder).widen)
    else if isBreak c then
      match leadingBreaks? r with
      | none => .error .invalidYaml
      | some (breaks, r') =>
        match read double r'.1 with
        | .error f => .error f
        | .ok (t, rest) => .ok (foldBreaks c breaks ++ t, (r'.after rest.toRemainder).widen)
    else if double && c = '\\' then
      match readEscape r with
      | .error f => .error f
      | .ok (s, r') =>
        match read double r'.1 with
        | .error f => .error f
        | .ok (t, rest) => .ok (s ++ t, (r'.after rest.toRemainder).widen)
    else if c = (if double then '"' else '\'') then
      match double, r with
      | false, '\'' :: r' => (read double r').map fun (t, rest) => ('\'' :: t, rest.widen.widen)
      | _, r => .ok ([], .tail c r)
    else (read double r).map fun (t, rest) => (c :: t, rest.widen)
termination_by cs.length

end BusinessRules.Yaml.Quoted

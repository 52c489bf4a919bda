import BusinessRules.Text.LineEnd

/-!
# Lines and columns

In the notation with indentation the place of a character matters: its line, its column, and
whether it stands next to blank space.

## Main definitions

* `normalizeBreaks`: a text whose line ends are line feeds
* `isMarker`: the markers that separate documents
* `foldBreaks`: what line breaks inside a value stand for
* `Cursor`: a place in a text
-/

namespace BusinessRules.Yaml

/-! ## Characters -/

/-- Whether a character ends a line of a text with normalised line ends. -/
def isBreak (c : Char) : Bool := c = '\n' || c = '\u2028' || c = '\u2029'

/-- The blanks inside a line. -/
def isSpace (c : Char) : Bool := c = ' ' || c = '\t'

/-- A text whose line ends are line feeds; line and paragraph separators stay as they are. -/
def normalizeBreaks (cs : List Char) : List Char :=
  (Text.unifyLineEnds cs).map fun c => if c.toNat = 0x85 then '\n' else c

/-- Whether a character may occur in a text at all: controls other than tabs and line ends, and
the two last code points of the first plane, may not. -/
def isAllowed (c : Char) : Bool :=
  let n := c.toNat
  n = 0x09 || n = 0x0A || n = 0x0D || (0x20 ≤ n && n ≤ 0x7E) || n = 0x85 ||
    (0xA0 ≤ n && n ≤ 0xFFFD) || 0x10000 ≤ n

/-- The byte order mark, which takes no column. -/
def byteOrderMark : Char := '\uFEFF'

/-- Whether blank space or the end of the text is next. -/
def atGap : List Char → Bool
  | [] => true
  | c :: _ => isSpace c || isBreak c

/-- Whether a marker between documents is next: three dashes or three points on their own. -/
def isMarker : List Char → Bool
  | '-' :: '-' :: '-' :: r => atGap r
  | '.' :: '.' :: '.' :: r => atGap r
  | _ => false

/-- What line breaks inside a value stand for: one line feed for a space, of several the first one
for nothing. -/
def foldBreaks (first : Char) (more : List Char) : List Char :=
  if first ≠ '\n' then first :: more
  else if more.isEmpty then [' ']
  else more

/-- A text from its next line break on. -/
def dropLine (cs : List Char) : List Char := cs.dropWhile fun c => !isBreak c

/-- The leading spaces and comments and line breaks before a token are passed over.  Also tells
whether a line break was among them. -/
def skipBlank (comment crossed : Bool) : List Char → Bool × List Char
  | [] => (crossed, [])
  | c :: r =>
    if isBreak c then skipBlank false true r
    else if comment || c = '#' then skipBlank true crossed r
    else if c = ' ' then skipBlank false crossed r
    else (crossed, c :: r)

/-! ## Places -/

/-- A place in a text: what follows it, and where it is. -/
structure Cursor where
  rest : List Char
  line : Nat
  column : Nat
  /-- The number of characters before it. -/
  index : Nat
  deriving Repr

namespace Cursor

/-- The start of a text. -/
def start (cs : List Char) : Cursor := ⟨cs, 0, 0, 0⟩

/-- The place after the next character. -/
def next (p : Cursor) : Cursor :=
  match p.rest with
  | [] => p
  | c :: r =>
    { rest := r
      line := if isBreak c then p.line + 1 else p.line
      column := if isBreak c then 0 else if c = byteOrderMark then p.column else p.column + 1
      index := p.index + 1 }

/-- The place some characters further. -/
def advance (p : Cursor) : Nat → Cursor
  | 0 => p
  | n + 1 => p.next.advance n

/-- The place at which a given rest of the text begins. -/
def goTo (p : Cursor) (rest : List Char) : Cursor :=
  p.advance (p.rest.length - rest.length)

end Cursor

end BusinessRules.Yaml

import BusinessRules.Document.Yaml.Block
import BusinessRules.Document.Yaml.Plain
import BusinessRules.Document.Yaml.Quoted

/-!
# Tokens

A text in the notation with indentation is a sequence of tokens.  Indentation itself becomes
tokens: a block opens where something stands further right than what is around it, and closes
where a later line stands further left.  Whether something is a key shows only at the colon
behind it, on the same line, so whatever may be a key is remembered until then.

Where a text cannot be cut further, its tokens end with one that says why.  Whoever reads the
tokens may find fault with an earlier one first, but only with tokens that are settled: those
before whatever may still turn out to be a key.

Directives, tags, anchors and references to them are refused.

## Main definitions

* `Token`: the tokens
* `Scan`: how far a text has been read
* `Token.ofText`: the tokens of a text
-/

namespace BusinessRules.Yaml

/-- The pieces of a text. -/
inductive Token where
  | documentStart
  | documentEnd
  /-- A list of lines with dashes opens. -/
  | openEntries
  /-- A mapping of lines with colons opens. -/
  | openPairs
  /-- What was opened by indentation closes. -/
  | closeBlock
  | openBracket
  | closeBracket
  | openBrace
  | closeBrace
  | comma
  /-- A dash before an entry. -/
  | entry
  /-- A key comes next. -/
  | key
  /-- The value of a key comes next. -/
  | value
  /-- A text, quoted or not. -/
  | scalar (plain : Bool) (text : List Char)
  /-- The text cannot be cut further. -/
  | broken (fault : Fault)
  deriving DecidableEq, Repr

/-- Something that may turn out to be a key. -/
structure Candidate where
  /-- The number of tokens before it. -/
  position : Nat
  /-- Whether its place allows nothing but a key. -/
  required : Bool
  line : Nat
  column : Nat
  index : Nat
  deriving Repr

/-- How far a text has been read. -/
structure Scan where
  cursor : Cursor
  /-- The columns of the open blocks, innermost first. -/
  indents : List Nat
  /-- What may be a key around each open bracket or brace, innermost first. -/
  around : List (Option Candidate)
  candidate : Option Candidate
  /-- Whether a key may begin here. -/
  keyAllowed : Bool
  /-- The tokens so far, last first. -/
  tokens : List Token

namespace Scan

/-- Nothing has been read yet. -/
def start (cs : List Char) : Scan := ⟨.start cs, [], [], none, true, []⟩

/-- What is left to read. -/
def rest (s : Scan) : List Char := s.cursor.rest

/-- Whether a bracket or a brace is open. -/
def inFlow (s : Scan) : Bool := !s.around.isEmpty

/-- The least column at which something belongs to the innermost block. -/
def minColumn (s : Scan) : Nat :=
  match s.indents with
  | [] => 0
  | n :: _ => n + 1

/-- One more token. -/
def emit (s : Scan) (t : Token) : Scan := { s with tokens := t :: s.tokens }

/-- One more token among those before it. -/
def emitAt (s : Scan) (position : Nat) (t : Token) : Scan :=
  let later := s.tokens.length - position
  { s with tokens := s.tokens.take later ++ t :: s.tokens.drop later }

/-- Go on with a given rest of the text. -/
def goTo (s : Scan) (rest : List Char) : Scan := { s with cursor := s.cursor.goTo rest }

/-- One more token, made of the next characters. -/
def take (s : Scan) (n : Nat) (t : Token) : Scan :=
  { s with cursor := s.cursor.advance n }.emit t

/-! ## Blocks -/

/-- The columns of the blocks that a column does not close, and how many it closes. -/
def dropDeeper (column : Nat) : List Nat → List Nat × Nat
  | [] => ([], 0)
  | n :: ns =>
    if column < n then
      let (kept, closed) := dropDeeper column ns
      (kept, closed + 1)
    else (n :: ns, 0)

/-- Close the blocks that stand further right than a column. -/
def closeTo (s : Scan) (column : Nat) : Scan :=
  if s.inFlow then s
  else
    let (kept, closed) := dropDeeper column s.indents
    { s with
      indents := kept
      tokens := List.replicate closed .closeBlock ++ s.tokens }

/-- Close all blocks. -/
def closeAll (s : Scan) : Scan :=
  if s.inFlow then s
  else
    { s with
      indents := []
      tokens := List.replicate s.indents.length .closeBlock ++ s.tokens }

/-- Whether something at a column opens a block. -/
def opensAt (s : Scan) (column : Nat) : Bool := !s.inFlow && s.minColumn ≤ column

/-- Open a block at the present column if it stands further right than what is around it. -/
def openBlock (s : Scan) (t : Token) : Scan :=
  let column := s.cursor.column
  if s.opensAt column then { s with indents := column :: s.indents }.emit t else s

/-! ## Keys -/

/-- The number of characters that a key on one line may have. -/
def maxKeyLength : Nat := 1024

/-- Whether something can no longer be a key. -/
def isStale (p : Cursor) (c : Candidate) : Bool :=
  c.line ≠ p.line || maxKeyLength < p.index - c.index

/-- What is left of something that may be a key; nothing may be left of what has to be one. -/
def refresh? (p : Cursor) : Option Candidate → Option (Option Candidate)
  | none => some none
  | some c => if isStale p c then (if c.required then none else some none) else some (some c)

/-- Forget what can no longer be a key. -/
def forgetStale? (s : Scan) : Option Scan := do
  let candidate ← refresh? s.cursor s.candidate
  let around ← s.around.mapM (refresh? s.cursor)
  return { s with candidate, around }

/-- What may still turn out to be a key, here and around the open brackets and braces. -/
def pending (s : Scan) : List Candidate := (s.candidate :: s.around).filterMap id

/-- The number of tokens that are settled: those before all that may still be a key. -/
def settled (s : Scan) : Nat :=
  s.pending.foldl (fun n c => min n c.position) s.tokens.length

/-- The tokens if the text cannot be cut further: those that are settled, and why. -/
def stopped (s : Scan) (f : Fault) : List Token := s.tokens.reverse.take s.settled ++ [.broken f]

/-- Forget what may be a key here. -/
def forget? (s : Scan) : Option Scan :=
  if s.candidate.any (·.required) then none else some { s with candidate := none }

/-- Remember that what comes next may be a key, if one may begin here. -/
def remember? (s : Scan) : Option Scan :=
  if !s.keyAllowed then some s
  else
    s.forget?.map fun s =>
      { s with
        candidate := some
          { position := s.tokens.length
            required := !s.inFlow && s.indents.head? = some s.cursor.column
            line := s.cursor.line
            column := s.cursor.column
            index := s.cursor.index } }

/-! ## Steps -/

/-- A marker between documents. -/
def document? (s : Scan) (t : Token) : Option Scan :=
  s.closeAll.forget?.map fun s => { s with keyAllowed := false }.take 3 t

/-- An opening bracket or brace. -/
def openFlow? (s : Scan) (t : Token) : Option Scan :=
  s.remember?.map fun s =>
    { s with
      around := s.candidate :: s.around
      candidate := none
      keyAllowed := true }.take 1 t

/-- A closing bracket or brace. -/
def closeFlow? (s : Scan) (t : Token) : Option Scan :=
  s.forget?.bind fun s =>
    match s.around with
    | [] => none
    | candidate :: around =>
      some <| { s with candidate, around, keyAllowed := false }.take 1 t

/-- A comma. -/
def comma? (s : Scan) : Option Scan :=
  s.forget?.map fun s => { s with keyAllowed := true }.take 1 .comma

/-- A dash before an entry. -/
def entry? (s : Scan) : Option Scan :=
  if !s.inFlow && !s.keyAllowed then none
  else
    (s.openBlock .openEntries).forget?.map fun s => { s with keyAllowed := true }.take 1 .entry

/-- A question mark before a key. -/
def key? (s : Scan) : Option Scan :=
  if !s.inFlow && !s.keyAllowed then none
  else
    (s.openBlock .openPairs).forget?.map fun s =>
      { s with keyAllowed := !s.inFlow }.take 1 .key

/-- A colon before a value: what may be a key is one. -/
def value? (s : Scan) : Option Scan :=
  match s.candidate with
  | some c =>
    let s := { s with candidate := none, keyAllowed := false }.emitAt c.position .key
    let s :=
      if s.opensAt c.column then
        { s with indents := c.column :: s.indents }.emitAt c.position .openPairs
      else s
    some (s.take 1 .value)
  | none =>
    if !s.inFlow && !s.keyAllowed then none
    else some <| { s.openBlock .openPairs with keyAllowed := !s.inFlow }.take 1 .value

/-- A text in an indented block. -/
def block? (s : Scan) (folded : Bool) (cs : List Char) : Option Scan := do
  let s ← s.forget?
  let (text, rest) ← Block.read? folded s.minColumn cs
  return { s with keyAllowed := true }.goTo rest |>.emit (.scalar false text)

/-- A quoted text. -/
def quoted (s : Scan) (double : Bool) (cs : List Char) : Outcome Scan :=
  match s.remember? with
  | none => .error .invalidYaml
  | some s =>
    (Quoted.read double cs).map fun (text, rest) =>
      { s with keyAllowed := false }.goTo rest.1 |>.emit (.scalar false text)

/-- A text that is not quoted. -/
def plain? (s : Scan) : Option Scan := do
  let s ← s.remember?
  let (text, crossed, rest) := Plain.read s.inFlow s.minColumn s.rest
  return { s with keyAllowed := crossed }.goTo rest |>.emit (.scalar true text)

/-- The characters that no unquoted text begins with. -/
def reserved : List Char :=
  ['-', '?', ':', ',', '[', ']', '\x7b', '\x7d', '#', '&', '*', '!', '|', '>', '\'', '"', '%',
   '@', '\x60']

/-- Whether an unquoted text begins with a character that something follows. -/
def startsPlain (flow : Bool) (c : Char) (next : List Char) : Bool :=
  !(isSpace c || isBreak c || reserved.contains c) ||
    (!atGap next && (c = '-' || (!flow && (c = '?' || c = ':'))))

/-- Read one token that is not a quoted text. -/
def stepUnquoted? (s : Scan) (c : Char) (r : List Char) : Option Scan :=
  if s.cursor.column = 0 && isMarker (c :: r) then
    s.document? (if c = '-' then .documentStart else .documentEnd)
  else if c = '[' then s.openFlow? .openBracket
  else if c = '\x7b' then s.openFlow? .openBrace
  else if c = ']' then s.closeFlow? .closeBracket
  else if c = '\x7d' then s.closeFlow? .closeBrace
  else if c = ',' then s.comma?
  else if c = '-' && atGap r then s.entry?
  else if c = '?' && (s.inFlow || atGap r) then s.key?
  else if c = ':' && (s.inFlow || atGap r) then s.value?
  else if c = '|' && !s.inFlow then s.block? false r
  else if c = '>' && !s.inFlow then s.block? true r
  else if startsPlain s.inFlow c r then s.plain?
  else none

/-- Read one token. -/
def step (s : Scan) : Outcome Scan :=
  match s.rest with
  | [] => .error .invalidYaml
  | c :: r =>
    if c = '\'' then s.quoted false r
    else if c = '"' then s.quoted true r
    else
      match s.stepUnquoted? c r with
      | some s => .ok s
      | none => .error .invalidYaml

/-- Pass over blank space.  A new line may begin with a key, except inside brackets and braces. -/
def skip (s : Scan) : Scan :=
  let (crossed, rest) := skipBlank false false s.rest
  { s with keyAllowed := s.keyAllowed || (crossed && !s.inFlow) }.goTo rest

/-- Read to the end.  What can no longer be a key is forgotten before blank space is passed over,
and again after it. -/
def run (s : Scan) : List Token :=
  match s.forgetStale?, s.skip.forgetStale? with
  | some s', some next =>
    let next := next.closeTo next.cursor.column
    if next.rest.isEmpty then
      match if next.inFlow then none else next.closeAll.forget? with
      | some last => last.tokens.reverse
      | none => s'.stopped .invalidYaml
    else
      match next.step with
      | .error f => s'.stopped f
      | .ok s'' => if s''.rest.length < s.rest.length then s''.run else s'.stopped .invalidYaml
  | _, _ => s.stopped .invalidYaml
termination_by s.rest.length

end Scan

/-- The tokens of a text. -/
def Token.ofText (cs : List Char) : List Token :=
  if !cs.all isAllowed then [.broken .invalidYaml]
  else
    match normalizeBreaks cs with
    | [] => []
    | c :: r => (Scan.start (if c = byteOrderMark then r else c :: r)).run

end BusinessRules.Yaml

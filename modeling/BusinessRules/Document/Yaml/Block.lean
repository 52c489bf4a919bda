import BusinessRules.Document.Yaml.Layout

/-!
# Texts in indented blocks

A vertical bar begins a text that is the indented lines below it, as they stand; after a greater
sign a single line break between two lines that begin with no blank counts as a space.  A header
may say how far the lines are indented, and which of the line breaks at the end belong to the
text: one, none or all.

## Main definitions

* `Block.Header`, `Block.Header.read?`: the header
* `Block.read?`: the text
-/

namespace BusinessRules.Yaml.Block

/-- Which line breaks at the end of a block belong to its text. -/
inductive Chomping where
  | clip
  | strip
  | keep
  deriving DecidableEq, Repr

/-- What the first line of a block says. -/
structure Header where
  chomping : Chomping
  /-- How much further the lines are indented than what is around the block, if it is said. -/
  indentation : Option Nat
  deriving DecidableEq, Repr

/-- The mark for the line breaks at the end, and what follows it. -/
def takeChomping : List Char → Chomping × List Char
  | '-' :: r => (.strip, r)
  | '+' :: r => (.keep, r)
  | r => (.clip, r)

/-- The indentation, and what follows it.  It is not zero. -/
def takeIndentation? : List Char → Option (Option Nat × List Char)
  | c :: r =>
    if c = '0' then none
    else if c.isDigit then some (some (c.toNat - '0'.toNat), r)
    else some (none, c :: r)
  | [] => some (none, [])

/-- The marks of a header in either order, and what follows them. -/
def Header.takeMarks? (cs : List Char) : Option (Header × List Char) :=
  match takeChomping cs with
  | (.clip, _) =>
    (takeIndentation? cs).map fun (indentation, r) =>
      match indentation with
      | none => (⟨.clip, none⟩, r)
      | some n => (⟨(takeChomping r).1, some n⟩, (takeChomping r).2)
  | (chomping, r) =>
    (takeIndentation? r).map fun (indentation, r) => (⟨chomping, indentation⟩, r)

/-- The header of a block, and the lines below it.  A comment may end the header. -/
def Header.read? (cs : List Char) : Option (Header × List Char) :=
  match takeMarks? cs with
  | none => none
  | some (header, r) =>
    if r.head? = some '\t' || !atGap r then none
    else
      let r := r.dropWhile (· = ' ')
      let r := if r.head? = some '#' then dropLine r else r
      match r with
      | [] => some (header, [])
      | c :: r => if isBreak c then some (header, r) else none

/-- The line breaks before the first line of a block, the greatest column of the spaces among
them, the column of the first line, and what follows. -/
def measure (most column : Nat) : List Char → List Char × Nat × Nat × List Char
  | [] => ([], most, column, [])
  | c :: r =>
    if c = ' ' then measure (max most (column + 1)) (column + 1) r
    else if isBreak c then
      let (breaks, found) := measure most 0 r
      (c :: breaks, found)
    else ([], most, column, c :: r)

/-- The line breaks and the spaces of the indentation before a line, the column at which they
end, and what follows. -/
def leadingBreaks (indent column : Nat) : List Char → List Char × Nat × List Char
  | [] => ([], column, [])
  | c :: r =>
    if c = ' ' && column < indent then leadingBreaks indent (column + 1) r
    else if isBreak c then
      let (breaks, found) := leadingBreaks indent 0 r
      (c :: breaks, found)
    else ([], column, c :: r)

theorem length_leadingBreaks_le (indent column : Nat) (cs : List Char) :
    (leadingBreaks indent column cs).2.2.length ≤ cs.length := by
  induction cs generalizing column with
  | nil => simp [leadingBreaks]
  | cons c r ih =>
    unfold leadingBreaks
    split
    · exact Nat.le_succ_of_le (ih _)
    · split
      · exact Nat.le_succ_of_le (ih _)
      · simp

/-- Whether a line begins with a blank. -/
def startsBlank (cs : List Char) : Bool := cs.head?.any isSpace

/-- What stands between two lines of a block: the line breaks, but if lines are folded and neither
begins with a blank, a space for a single one and all but the first one of several. -/
def between (folded : Bool) (line : List Char) (first : Char) (more next : List Char) : List Char :=
  if folded && first = '\n' && !startsBlank line && !startsBlank next then
    foldBreaks first more
  else first :: more

/-- The lines of a block from a place at a column on: their text without the line breaks at the
end, the last line break, those after it, and what follows. -/
def lines (folded : Bool) (indent : Nat) (cs : List Char) :
    List Char × List Char × List Char × List Char :=
  let line := cs.takeWhile fun c => !isBreak c
  match h : dropLine cs with
  | [] => (line, [], [], [])
  | c :: r =>
    match hr : leadingBreaks indent 0 r with
    | (breaks, column, rest) =>
      if column = indent && !rest.isEmpty then
        have : rest.length < cs.length := by
          have h₁ := (List.dropWhile_suffix (l := cs) fun c => !isBreak c).length_le
          have h₂ := length_leadingBreaks_le indent 0 r
          rw [dropLine] at h
          simp only [h, hr, List.length_cons] at h₁ h₂
          omega
        let (text, tail) := lines folded indent rest
        (line ++ between folded line c breaks rest ++ text, tail)
      else (line, [c], breaks, rest)
termination_by cs.length

/-- The line breaks at the end of a block that belong to its text. -/
def Chomping.ending (last more : List Char) : Chomping → List Char
  | clip => last
  | strip => []
  | keep => last ++ more

/-- The text of a block, and what follows it.  The lines are indented at least to a given
column. -/
def read? (folded : Bool) (minColumn : Nat) (cs : List Char) : Option (List Char × List Char) :=
  match Header.read? cs with
  | none => none
  | some (header, r) =>
    let least := max minColumn 1
    let (indent, breaks, column, rest) :=
      match header.indentation with
      | some n => (least + n - 1, leadingBreaks (least + n - 1) 0 r)
      | none =>
        let (breaks, most, column, rest) := measure 0 0 r
        (max least most, breaks, column, rest)
    if column = indent && !rest.isEmpty then
      let (text, last, more, rest) := lines folded indent rest
      some (breaks ++ text ++ header.chomping.ending last more, rest)
    else some (header.chomping.ending [] breaks, rest)

end BusinessRules.Yaml.Block

import BusinessRules.Document.Yaml.Layout

/-!
# Unquoted texts

An unquoted text is made of runs of characters with blank space between them.  It may go on over
several lines as long as these are indented further than what is around it; a line break counts
as a space.

## Main definitions

* `Plain.splitRun`: a run of characters and what follows it
* `Plain.gapAfter`: the blank space after a run
* `Plain.read`: a text that is not quoted
-/

namespace BusinessRules.Yaml.Plain

/-- The characters that separate values inside brackets and braces. -/
def flowMarks : List Char := [',', '[', ']', '\x7b', '\x7d']

/-- Whether a run ends here: at blank space, at a colon with blank space after it, and inside
brackets also at what separates values. -/
def endsRun (flow : Bool) : List Char → Bool
  | [] => true
  | c :: r =>
    isSpace c || isBreak c ||
    (c = ':' && (atGap r || (flow && r.head?.any flowMarks.contains))) ||
    (flow && (c = '?' || flowMarks.contains c))

/-- The run at the start of a text, and what follows it. -/
def splitRun (flow : Bool) : List Char → List Char × List Char
  | [] => ([], [])
  | c :: r =>
    if endsRun flow (c :: r) then ([], c :: r)
    else
      let (run, rest) := splitRun flow r
      (c :: run, rest)

/-- A run and what follows it make up the text. -/
theorem splitRun_append (flow : Bool) (cs : List Char) :
    (splitRun flow cs).1 ++ (splitRun flow cs).2 = cs := by
  induction cs with
  | nil => rfl
  | cons c r ih =>
    by_cases h : endsRun flow (c :: r) <;> simp [splitRun, h, ih]

/-- The blank space after a run. -/
structure Gap where
  /-- What it stands for between two runs; nothing if the text ends here. -/
  text : List Char
  /-- The column at which it ends, if it holds a line break. -/
  column : Option Nat
  rest : List Char

/-- The line breaks and spaces at the start of a line, up to a marker if there is one. -/
def leadingBreaks (column : Nat) : List Char → List Char × Nat × List Char
  | [] => ([], column, [])
  | c :: r =>
    if c = ' ' then leadingBreaks (column + 1) r
    else if isBreak c then
      if isMarker r then ([], 0, r)
      else
        let (breaks, column, rest) := leadingBreaks 0 r
        (c :: breaks, column, rest)
    else ([], column, c :: r)

theorem length_leadingBreaks_le (column : Nat) (cs : List Char) :
    (leadingBreaks column cs).2.2.length ≤ cs.length := by
  induction cs generalizing column with
  | nil => simp [leadingBreaks]
  | cons c r ih =>
    unfold leadingBreaks
    split
    · exact Nat.le_succ_of_le (ih _)
    · split
      · split
        · simp
        · exact Nat.le_succ_of_le (ih _)
      · simp

/-- The blank space after a run.  A marker between documents ends the text. -/
def gapAfter (cs : List Char) : Gap :=
  let spaces := cs.takeWhile (· = ' ')
  match cs.dropWhile (· = ' ') with
  | [] => ⟨spaces, none, []⟩
  | c :: r =>
    if !isBreak c then ⟨spaces, none, c :: r⟩
    else if isMarker r then ⟨[], some 0, r⟩
    else
      let (breaks, column, rest) := leadingBreaks 0 r
      ⟨if column = 0 && isMarker rest then [] else foldBreaks c breaks, some column, rest⟩

theorem length_gapAfter_le (cs : List Char) : (gapAfter cs).rest.length ≤ cs.length := by
  have hle : (cs.dropWhile (· = ' ')).length ≤ cs.length := (List.dropWhile_suffix _).length_le
  unfold gapAfter
  split
  · simp
  · rename_i c r h
    rw [h, List.length_cons] at hle
    split
    · simpa using hle
    · split
      · simp only; omega
      · exact Nat.le_trans (length_leadingBreaks_le 0 r) (by omega)

/-- A run and the gap after it take something of a text. -/
theorem length_gapAfter_lt {flow : Bool} {cs run r : List Char} {c : Char}
    (h : splitRun flow cs = (c :: run, r)) : (gapAfter r).rest.length < cs.length := by
  have happ := congrArg List.length (splitRun_append flow cs)
  have hle := length_gapAfter_le r
  simp only [h, List.length_append, List.length_cons] at happ
  omega

/-- Whether a text that began further left than a column may not go on after a gap. -/
def endsAt (flow : Bool) (minColumn : Nat) (gap : Gap) : Bool :=
  gap.text.isEmpty || gap.rest.head? = some '#' || (!flow && gap.column.any (· < minColumn))

/-- An unquoted text, whether a line break follows it, and what follows after blank space. -/
def read (flow : Bool) (minColumn : Nat) (cs : List Char) : List Char × Bool × List Char :=
  match h : splitRun flow cs with
  | ([], _) => ([], false, cs)
  | (c :: run, r) =>
    let gap := gapAfter r
    if endsAt flow minColumn gap then (c :: run, gap.column.isSome, gap.rest)
    else
      have : gap.rest.length < cs.length := length_gapAfter_lt h
      match read flow minColumn gap.rest with
      | ([], _, _) => (c :: run, gap.column.isSome, gap.rest)
      | (more, crossed, rest) => (c :: run ++ gap.text ++ more, crossed, rest)
termination_by cs.length

end BusinessRules.Yaml.Plain

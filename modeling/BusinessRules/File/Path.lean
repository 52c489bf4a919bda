/-!
# Paths

A path names a file by the folders on the way to it.  Two texts that differ only in slashes at the
end, in doubled slashes or in steps that stay in place are the same path; a step back is kept, for
where it leads depends on the folders.

## Main definitions

* `Path`: the paths
* `Path.ofText`, `Path.text`: reading and writing them
* `Path.suffix`: the ending of a file name
-/

namespace BusinessRules

/-- A path. -/
structure Path where
  /-- Whether it starts at the root. -/
  absolute : Bool
  parts : List String
  deriving DecidableEq, Repr

namespace Path

/-- Read a path. -/
def ofText (s : String) : Path :=
  { absolute := s.toList.head? = some '/'
    parts := ((s.toList.splitOn '/').map String.ofList).filter fun p => p ≠ "" && p ≠ "." }

/-- Write a path. -/
def text (p : Path) : String :=
  if p.absolute then "/" ++ "/".intercalate p.parts
  else if p.parts.isEmpty then "."
  else "/".intercalate p.parts

/-- The path of something in a folder. -/
def child (p : Path) (name : String) : Path := { p with parts := p.parts ++ [name] }

/-- The ending of a file name: its last point and what follows it, if there is something before
and behind that point. -/
def suffixOfName (name : String) : String :=
  let cs := name.toList
  let ending := (cs.reverse.takeWhile (· ≠ '.')).reverse
  if ending.isEmpty || cs.length ≤ ending.length + 1 then ""
  else String.ofList ('.' :: ending)

/-- The ending of the file name of a path. -/
def suffix (p : Path) : String := ((p.parts.getLast?).map suffixOfName).getD ""

end Path

end BusinessRules

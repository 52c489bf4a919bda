import BusinessRules.File.Path

/-!
# Trees of files

A tree is a file with its bytes, or a folder of named trees.  Paths lead from a folder through
folders; a step back leads to the folder around.

## Main definitions

* `FileTree`: the trees
* `FileTree.at?`: what a path leads to
* `FileTree.put`: a tree with something more in it
-/

namespace BusinessRules

/-- A file or a folder. -/
inductive FileTree where
  | file (content : List UInt8)
  | folder (entries : List (String × FileTree))
  deriving Repr, Inhabited

namespace FileTree

/-- An empty folder. -/
def empty : FileTree := .folder []

/-- The entries of a folder. -/
def entries : FileTree → List (String × FileTree)
  | file _ => []
  | folder es => es

/-- Whether something is a folder. -/
def isFolder : FileTree → Bool
  | file _ => false
  | folder _ => true

/-- Where steps lead from a folder, given the folders around it, innermost first. -/
def walk (above : List FileTree) (here : FileTree) : List String → Option FileTree
  | [] => some here
  | name :: names =>
    if !here.isFolder then none
    else if name = ".." then
      match above with
      | [] => walk [] here names
      | outer :: above => walk above outer names
    else
      match here.entries.lookup name with
      | none => none
      | some inner => walk (here :: above) inner names

/-- What a path leads to.  Nothing is known outside the tree, so an absolute path leads nowhere. -/
def at? (tree : FileTree) (p : Path) : Option FileTree :=
  if p.absolute then none else tree.walk [] p.parts

/-- The entries of a folder with one more, in place of any of the same name. -/
def putEntry (name : String) (tree : FileTree) (entries : List (String × FileTree)) :
    List (String × FileTree) :=
  (name, tree) :: entries.filter fun e => e.1 ≠ name

/-- A tree with something at the end of some steps; folders are made on the way. -/
def put (tree : FileTree) (steps : List String) (new : FileTree) : FileTree :=
  match steps with
  | [] => new
  | name :: names =>
    let inner := (tree.entries.lookup name).getD .empty
    .folder (putEntry name (inner.put names new) tree.entries)

/-- The names in a folder, in order. -/
def names (tree : FileTree) : List String :=
  (tree.entries.map Prod.fst).mergeSort fun a b => !decide (b < a)

end FileTree

end BusinessRules

import BusinessRules.Document.Entries
import BusinessRules.Document.Yaml.Scalar
import BusinessRules.Document.Yaml.Token
import BusinessRules.Text.Rest

/-!
# Nodes

The tokens of a text make up a tree of texts, sequences and mappings.  What is missing between two
tokens, such as the value of a key with nothing behind its colon, is the empty text.

## Main definitions

* `Node`: the trees
* `Node.ofTokens`: the tree of a text
* `Node.toDatum`: what a tree denotes
-/

namespace BusinessRules.Yaml

/-- The tree of a text. -/
inductive Node where
  | scalar (plain : Bool) (text : List Char)
  | sequence (items : List Node)
  | mapping (entries : List (Node × Node))
  deriving Repr, Inhabited

/-- Where a node stands. -/
inductive Place where
  /-- After the dash of an entry, or at the root. -/
  | entry
  /-- After the dash of an entry that is indented no further than the key above it. -/
  | looseEntry
  /-- In a block mapping. -/
  | pair
  /-- Between brackets or braces. -/
  | flow
  deriving DecidableEq, Repr

/-- Whether a token shows that nothing stands at a place. -/
def Place.isEmptyBefore : Place → Token → Bool
  | entry, t => t = .entry || t = .closeBlock
  | looseEntry, t => t = .entry || t = .key || t = .value || t = .closeBlock
  | pair, t => t = .key || t = .value || t = .closeBlock
  | flow, t => t = .value || t = .comma || t = .closeBracket || t = .closeBrace

namespace Node

/-- What stands where nothing is written. -/
def empty : Node := .scalar true []

/-- What is wrong with tokens that do not go on as they should: the text cannot be cut further, or
the next token is out of place. -/
def misplaced : List Token → Fault
  | .broken f :: _ => f
  | _ => .invalidYaml

mutual

/-- The node at the start of some tokens, and what follows it. -/
def read (place : Place) (ts : List Token) : Outcome (Node × Rest ts) :=
  match ts with
  | .scalar plain text :: r => .ok (.scalar plain text, .tail _ r)
  | .openBracket :: r => (readItems r).map fun (items, rest) => (.sequence items, rest.widen)
  | .openBrace :: r => (readMembers r).map fun (entries, rest) => (.mapping entries, rest.widen)
  | .entry :: r =>
    if place ≠ .pair then .error .invalidYaml
    else (readEntries .looseEntry r).map fun (items, rest) => (.sequence items, rest.widen)
  | .openEntries :: .entry :: r =>
    if place = .flow then .error .invalidYaml
    else
      match readEntries .entry r with
      | .error f => .error f
      | .ok (items, ⟨.closeBlock :: rest, h⟩) =>
        .ok (.sequence items, Rest.widen (Rest.widen ⟨rest, h⟩))
      | .ok (_, rest) => .error (misplaced rest.1)
  | .openPairs :: .key :: r =>
    if place = .flow then .error .invalidYaml
    else
      match readPairs r with
      | .error f => .error f
      | .ok (entries, ⟨.closeBlock :: rest, h⟩) =>
        .ok (.mapping entries, Rest.widen (Rest.widen ⟨rest, h⟩))
      | .ok (_, rest) => .error (misplaced rest.1)
  | ts => .error (misplaced ts)
termination_by (ts.length, 0)

/-- The node at a place that may be empty, and what follows it. -/
def readOptional (place : Place) (ts : List Token) : Outcome (Node × Remainder ts) :=
  if ts.head?.any place.isEmptyBefore then .ok (.empty, .all ts)
  else (read place ts).map fun (node, rest) => (node, rest.toRemainder)
termination_by (ts.length, 1)

/-- The value of a key, empty if there is no colon, and what follows it. -/
def readValue (place : Place) (ts : List Token) : Outcome (Node × Remainder ts) :=
  match ts with
  | .value :: r =>
    (readOptional place r).map fun (node, rest) => (node, rest.widen.toRemainder)
  | ts => .ok (.empty, .all ts)
termination_by (ts.length, 2)

/-- A key and its value, and what follows them. -/
def readPair (place : Place) (ts : List Token) : Outcome ((Node × Node) × Remainder ts) :=
  match readOptional place ts with
  | .error f => .error f
  | .ok (key, r) => (readValue place r.1).map fun (value, rest) => ((key, value), r.after rest)
termination_by (ts.length, 3)
decreasing_by
  · exact Prod.Lex.right _ (by omega)
  · rcases Nat.lt_or_eq_of_le r.2 with h | h
    · exact Prod.Lex.left _ _ h
    · rw [h]
      exact Prod.Lex.right _ (by omega)

/-- The entries from the place after a dash on, and what follows them. -/
def readEntries (place : Place) (ts : List Token) : Outcome (List Node × Remainder ts) :=
  match readOptional place ts with
  | .error f => .error f
  | .ok (item, ⟨.entry :: r, h⟩) =>
    (readEntries place r).map fun (items, rest) =>
      (item :: items, .after ⟨_, h⟩ rest.widen.toRemainder)
  | .ok (item, rest) => .ok ([item], rest)
termination_by (ts.length, 4)

/-- The entries of a block mapping from the place of a key on, and what follows them. -/
def readPairs (ts : List Token) : Outcome (List (Node × Node) × Remainder ts) :=
  match readPair .pair ts with
  | .error f => .error f
  | .ok (entry, ⟨.key :: r, h⟩) =>
    (readPairs r).map fun (entries, rest) =>
      (entry :: entries, .after ⟨_, h⟩ rest.widen.toRemainder)
  | .ok (entry, rest) => .ok ([entry], rest)
termination_by (ts.length, 4)

/-- The items up to a closing bracket, and what follows it.  A key among them is a mapping of its
own. -/
def readItems (ts : List Token) : Outcome (List Node × Rest ts) :=
  match ts with
  | .closeBracket :: r => .ok ([], .tail _ r)
  | .key :: r =>
    match readPair .flow r with
    | .error f => .error f
    | .ok (entry, ⟨.closeBracket :: rest, h⟩) =>
      .ok ([.mapping [entry]], Rest.widen ⟨rest, h⟩)
    | .ok (entry, ⟨.comma :: r', h⟩) =>
      have : r'.length < r.length := h
      (readItems r').map fun (items, rest) =>
        (.mapping [entry] :: items, Rest.widen (.after ⟨r', h⟩ rest.toRemainder))
    | .ok (_, rest) => .error (misplaced rest.1)
  | ts =>
    match read .flow ts with
    | .error f => .error f
    | .ok (item, ⟨.closeBracket :: rest, h⟩) => .ok ([item], ⟨rest, Nat.lt_of_succ_lt h⟩)
    | .ok (item, ⟨.comma :: r', h⟩) =>
      have : r'.length < ts.length := Nat.lt_of_succ_lt h
      (readItems r').map fun (items, rest) =>
        (item :: items, .after ⟨r', this⟩ rest.toRemainder)
    | .ok (_, rest) => .error (misplaced rest.1)
termination_by (ts.length, 4)

/-- The entries up to a closing brace, and what follows it.  A node on its own is a key. -/
def readMembers (ts : List Token) : Outcome (List (Node × Node) × Rest ts) :=
  match ts with
  | .closeBrace :: r => .ok ([], .tail _ r)
  | .key :: r =>
    match readPair .flow r with
    | .error f => .error f
    | .ok (entry, ⟨.closeBrace :: rest, h⟩) => .ok ([entry], Rest.widen ⟨rest, h⟩)
    | .ok (entry, ⟨.comma :: r', h⟩) =>
      have : r'.length < r.length := h
      (readMembers r').map fun (entries, rest) =>
        (entry :: entries, Rest.widen (.after ⟨r', h⟩ rest.toRemainder))
    | .ok (_, rest) => .error (misplaced rest.1)
  | ts =>
    match read .flow ts with
    | .error f => .error f
    | .ok (key, ⟨.closeBrace :: rest, h⟩) =>
      .ok ([(key, .empty)], ⟨rest, Nat.lt_of_succ_lt h⟩)
    | .ok (key, ⟨.comma :: r', h⟩) =>
      have : r'.length < ts.length := Nat.lt_of_succ_lt h
      (readMembers r').map fun (entries, rest) =>
        ((key, .empty) :: entries, .after ⟨r', this⟩ rest.toRemainder)
    | .ok (_, rest) => .error (misplaced rest.1)
termination_by (ts.length, 4)

end

/-- The node of a document, and what follows it. -/
def readRoot : List Token → Outcome (Node × List Token)
  | [] => .ok (.empty, [])
  | .documentStart :: r =>
    match r with
    | [] => .ok (.empty, [])
    | .documentEnd :: r => .ok (.empty, .documentEnd :: r)
    | r => (read .entry r).map fun (node, rest) => (node, rest)
  | ts => (read .entry ts).map fun (node, rest) => (node, rest)

/-- The tree of a text that is one document. -/
def ofTokens (ts : List Token) : Outcome Node :=
  match readRoot ts with
  | .error f => .error f
  | .ok (node, rest) =>
    match rest.dropWhile (· = .documentEnd) with
    | [] => .ok node
    | ts => .error (misplaced ts)

/-! ## What trees denote -/

/-- What a text denotes; quoted texts denote themselves. -/
def scalarDatum (plain : Bool) (text : List Char) : Outcome Datum :=
  if plain then Scalar.denote text else .ok (.text (String.ofList text))

/-- A result whose fault comes with its depth in the tree. -/
abbrev Graded (α : Type) := Except (Nat × Fault) α

/-- Two results; of two faults the one that is less deep, or else the first one. -/
def both {α β : Type} : Graded α → Graded β → Graded (α × β)
  | .ok a, .ok b => .ok (a, b)
  | .error f, .error g => .error (if g.1 < f.1 then g else f)
  | .error f, .ok _ => .error f
  | .ok _, .error g => .error g

/-- What a key denotes: an equals sign is a text here, and only texts and numbers can be keys. -/
def keyDatum : Node → Outcome Datum
  | .scalar true ['='] => .ok (.text "=")
  | .scalar plain text => scalarDatum plain text
  | _ => .error .invalidYaml

mutual

/-- What a tree at some depth denotes. -/
def datumAt (depth : Nat) : Node → Graded Datum
  | .scalar plain text => (scalarDatum plain text).mapError (depth, ·)
  | .sequence items => (itemsAt (depth + 1) items).map .list
  | .mapping entries => (entriesAt (depth + 1) entries).map .ofEntries

/-- What the items of a sequence denote. -/
def itemsAt (depth : Nat) : List Node → Graded (List Datum)
  | [] => .ok []
  | n :: ns => (both (n.datumAt depth) (itemsAt depth ns)).map fun (d, ds) => d :: ds

/-- What the entries of a mapping denote. -/
def entriesAt (depth : Nat) : List (Node × Node) → Graded (List (Datum × Datum))
  | [] => .ok []
  | (k, v) :: es =>
    (both (both (k.keyDatum.mapError (depth, ·)) (v.datumAt depth)) (entriesAt depth es)).map
      fun (e, es) => e :: es

end

/-- What a tree denotes.  A collection is complete before what is in it: of several faults the
first one of those that are the least deep counts. -/
def toDatum (n : Node) : Outcome Datum := (n.datumAt 0).mapError Prod.snd

end Node

end BusinessRules.Yaml

import BusinessRules.Binary64.Shortest
import BusinessRules.Fault
import BusinessRules.Room
import BusinessRules.Text.Digit
import BusinessRules.Text.Quoted
import BusinessRules.Value.Basic

/-!
# Data

Facts and parsed documents hold data of more types than expressions know: whole and binary
numbers, byte strings, tuples, sets, mappings, ranges, streams that can be read once, and objects
of any other type, of which no more is known than how they are shown.

A datum may have no form in which it can be shown: whole numbers are written out up to a number of
digits, and data are shown as deep as the host goes.

## Main definitions

* `OtherObject`, `Datum`: the data
* `Datum.same`: whether two data are the same
* `Datum.shown`: how a datum is shown inside a larger message
* `Datum.display`: how a datum is shown on its own
* `Datum.isFilled`: whether a datum counts as present where an empty one counts as absent
* `Datum.typeName`: the name of its type in messages
-/

namespace BusinessRules

/-- An object of some other type, which cannot be looped over and has no fields.  It can always be
shown. -/
structure OtherObject where
  /-- The name of its type. -/
  type : String
  /-- How it is shown on its own. -/
  text : String
  /-- How it is shown inside a larger message. -/
  shown : String
  /-- Whether it counts as present. -/
  filled : Bool
  /-- Whether it can be looked up. -/
  isKey : Bool
  deriving DecidableEq, Repr

/-- What a fact or a field of a document may hold. -/
inductive Datum where
  | null
  | bool (b : Bool)
  | int (n : Int)
  | decimal (n : Decimal)
  | float (x : Binary64)
  | text (s : String)
  | bytes (bs : List UInt8)
  | list (items : List Datum)
  | tuple (items : List Datum)
  | set (items : List Datum)
  | map (entries : List (Datum × Datum))
  /-- The whole numbers from zero up to a bound. -/
  | range (stop : Int)
  /-- What is left of a stream; no two streams need to be shown alike. -/
  | stream (shown : String) (rest : List Datum)
  | other (o : OtherObject)
  deriving Repr, Inhabited

namespace Datum

mutual

/-- Whether two data are the same. -/
def same : Datum → Datum → Bool
  | .null, .null => true
  | .bool b, .bool c => b == c
  | .int m, .int n => m == n
  | .decimal m, .decimal n => m == n
  | .float x, .float y => x == y
  | .text s, .text t => s == t
  | .bytes bs, .bytes cs => bs == cs
  | .list ds, .list es | .tuple ds, .tuple es | .set ds, .set es => sameItems ds es
  | .map ds, .map es => sameEntries ds es
  | .range m, .range n => m == n
  | .stream s ds, .stream t es => s == t && sameItems ds es
  | .other o, .other p => o == p
  | _, _ => false

/-- Whether two lists of items are the same. -/
def sameItems : List Datum → List Datum → Bool
  | [], [] => true
  | d :: ds, e :: es => same d e && sameItems ds es
  | _, _ => false

/-- Whether two lists of entries are the same. -/
def sameEntries : List (Datum × Datum) → List (Datum × Datum) → Bool
  | [], [] => true
  | (k, d) :: ds, (l, e) :: es => same k l && same d e && sameEntries ds es
  | _, _ => false

end

instance : BEq Datum := ⟨same⟩

/-- Only a text is the same as a text. -/
@[simp]
theorem beq_text {d : Datum} {s : String} : (d == .text s) = true ↔ d = .text s := by
  change same d (.text s) = true ↔ _
  cases d <;> simp [same]

/-- The name of a datum's type in messages. -/
def typeName : Datum → String
  | .null => "NoneType"
  | .bool _ => "bool"
  | .int _ => "int"
  | .decimal _ => "Decimal"
  | .float _ => "float"
  | .text _ => "str"
  | .bytes _ => "bytes"
  | .list _ => "list"
  | .tuple _ => "tuple"
  | .set _ => "set"
  | .map _ => "dict"
  | .range _ => "range"
  | .stream .. => "list_iterator"
  | .other o => o.type

/-- Whether a datum counts as present: not null, false, a zero, or empty. -/
def isFilled : Datum → Bool
  | .null => false
  | .bool b => b
  | .int n => n != 0
  | .decimal n => !n.isZero
  | .float x => !x.isZero
  | .text s => !s.isEmpty
  | .bytes bs => !bs.isEmpty
  | .list items | .tuple items | .set items => !items.isEmpty
  | .map entries => !entries.isEmpty
  | .range stop => 0 < stop
  | .stream .. => true
  | .other o => o.filled

section

/- Powers are the plain ones of the natural numbers. -/
attribute [local instance (2000)] instPowNat

/-- How a whole number is shown, unless it has too many digits. -/
def showWhole (n : Int) : Outcome String :=
  if n.natAbs < 10 ^ Text.maxDigits then .ok (toString n) else .error .numberUnshowable

end

mutual

/-- How a datum is shown inside a larger message, as far as there is room.  What stands first goes
wrong first. -/
def shown (room : Room) (d : Datum) : Outcome String :=
  match room.inside? with
  | none => .error (.nestedTooDeep "getting the repr of an object")
  | some inner =>
    match d with
    | .null => .ok "None"
    | .bool b => .ok (if b then "True" else "False")
    | .int n => showWhole n
    | .decimal n => .ok ("Decimal('" ++ String.ofList n.scientific ++ "')")
    | .float x => .ok (String.ofList x.text)
    | .text s => .ok (Text.quote s)
    | .bytes bs => .ok (Text.quoteBytes bs)
    | .list items => (shownItems inner items).map fun ts => "[" ++ ", ".intercalate ts ++ "]"
    | .tuple [item] => (shown inner item).map fun t => "(" ++ t ++ ",)"
    | .tuple items => (shownItems inner items).map fun ts => "(" ++ ", ".intercalate ts ++ ")"
    | .set [] => .ok "set()"
    | .set items =>
      (shownItems inner items).map fun ts => "\x7b" ++ ", ".intercalate ts ++ "\x7d"
    | .map entries =>
      (shownEntries inner entries).map fun ts => "\x7b" ++ ", ".intercalate ts ++ "\x7d"
    | .range stop => (showWhole stop).map fun t => "range(0, " ++ t ++ ")"
    | .stream s _ => .ok s
    | .other o => .ok o.shown

/-- How the items of a collection are shown. -/
def shownItems (room : Room) : List Datum → Outcome (List String)
  | [] => .ok []
  | d :: ds => do
    let t ← shown room d
    let ts ← shownItems room ds
    return t :: ts

/-- How the entries of a mapping are shown. -/
def shownEntries (room : Room) : List (Datum × Datum) → Outcome (List String)
  | [] => .ok []
  | (k, v) :: es => do
    let key ← shown room k
    let value ← shown room v
    let ts ← shownEntries room es
    return (key ++ ": " ++ value) :: ts

end

/-- How a datum is shown on its own: a text as it stands, and a decimal without its type. -/
def display (room : Room) : Datum → Outcome String
  | .text s => .ok s
  | .decimal n => .ok (String.ofList n.scientific)
  | .other o => .ok o.text
  | d => d.shown room

/-- The items that a loop over a datum visits, if it can be looped over.  Texts, byte strings and
mappings cannot. -/
def elements? : Datum → Option (List Datum)
  | .list items | .tuple items | .set items | .stream _ items => some items
  | .range stop => some ((List.range stop.toNat).map fun (n : Nat) => .int n)
  | _ => none

/-- Whether a datum can drive an iteration. -/
def isCollection (d : Datum) : Bool := d.elements?.isSome

/-- What is left of a datum after a loop over it: a stream is used up. -/
def afterLoop : Datum → Datum
  | .stream s _ => .stream s []
  | d => d

/-- The value of the first entry of a mapping under a text key. -/
def field? (entries : List (Datum × Datum)) (key : String) : Option Datum :=
  match entries with
  | [] => none
  | (.text k, v) :: es => if k = key then some v else field? es key
  | _ :: es => field? es key

/-- The value under a text key, null if there is none. -/
def field (entries : List (Datum × Datum)) (key : String) : Datum :=
  (field? entries key).getD .null

end Datum

end BusinessRules

import BusinessRules.Document.Entries
import BusinessRules.Fault
import BusinessRules.Room
import BusinessRules.Text.CodePoint
import BusinessRules.Text.Hexadecimal

/-!
# Documents in the notation of data interchange

The reader for texts in JSON.  Whole numbers stay whole, numbers with a point or a power of ten
are read as exact decimals, and the names of the numbers that are not finite are accepted as
binary numbers.  A mapping keeps one entry per key.  Each list and each mapping takes up a level of
the room that there is for nested data.

## Main definitions

* `Json.read`: the datum that a text denotes
-/

namespace BusinessRules.Json

/-- The blanks of the notation. -/
def isBlank (c : Char) : Bool := c = ' ' || c = '\t' || c = '\n' || c = '\r'

/-- A text without its leading blanks. -/
def skipBlanks (cs : List Char) : List Char := cs.dropWhile isBlank

theorem length_skipBlanks_le (cs : List Char) : (skipBlanks cs).length ≤ cs.length :=
  (List.dropWhile_suffix isBlank).length_le

/-! ## Strings -/

/-- The escapes of one character. -/
def escapes : List (Char × Char) :=
  [('"', '"'), ('\\', '\\'), ('/', '/'), ('b', '\x08'), ('f', '\x0C'), ('n', '\n'), ('r', '\r'),
   ('t', '\t')]

/-- The code point of a code unit and of the one that may follow it as an escape: two that make up
a pair are one code point. -/
def readUnits? (cs : List Char) : Option (Nat × Remainder cs) :=
  match Text.takeHex? 4 cs with
  | none => none
  | some (n, rest) =>
    match Text.isHighHalf n, rest with
    | true, ⟨'\\' :: 'u' :: r, h⟩ =>
      match Text.takeHex? 4 r with
      | none => none
      | some (m, rest) =>
        if Text.isLowHalf m then
          some (Text.joinHalves n m, Remainder.after ⟨_, h⟩ rest.widen.widen.toRemainder)
        else some (n, ⟨'\\' :: 'u' :: r, h⟩)
    | _, rest => some (n, rest)

/-- What an escape denotes, and what follows it. -/
def readEscape? (cs : List Char) : Option (List Char × Rest cs) :=
  match cs with
  | [] => none
  | 'u' :: r => (readUnits? r).map fun (n, rest) => (Text.ofCodePoint n, rest.widen)
  | c :: r => (escapes.lookup c).map fun d => ([d], .tail c r)

/-- The characters up to the closing quote mark, and what follows it.  Controls are refused. -/
def readString? (cs : List Char) : Option (List Char × Rest cs) :=
  match cs with
  | [] => none
  | '"' :: r => some ([], .tail '"' r)
  | '\\' :: r =>
    match readEscape? r with
    | none => none
    | some (t, r') =>
      (readString? r'.1).map fun (s, rest) => (t ++ s, (r'.after rest.toRemainder).widen)
  | c :: r =>
    if c.toNat < 0x20 then none else (readString? r).map fun (s, rest) => (c :: s, rest.widen)
termination_by cs.length

/-! ## Numbers -/

/-- A whole number without superfluous zeros, as its digits, and what follows it. -/
def takeWhole? : List Char → Option (List Char × List Char)
  | '0' :: r => some (['0'], r)
  | cs =>
    let ds := cs.takeWhile Char.isDigit
    if ds.isEmpty then none else some (ds, cs.dropWhile Char.isDigit)

/-- The digits after a point, and what follows them; nothing if no digit follows the point. -/
def takeFraction : List Char → List Char × List Char
  | '.' :: r =>
    let ds := r.takeWhile Char.isDigit
    if ds.isEmpty then ([], '.' :: r) else ('.' :: ds, r.dropWhile Char.isDigit)
  | cs => ([], cs)

/-- A power of ten, and what follows it; nothing if no digit follows its mark. -/
def takePower (cs : List Char) : List Char × List Char :=
  match cs with
  | e :: r =>
    if e = 'e' || e = 'E' then
      let (sign, body) :=
        match r with
        | '+' :: r' => (['+'], r')
        | '-' :: r' => (['-'], r')
        | r' => ([], r')
      let ds := body.takeWhile Char.isDigit
      if ds.isEmpty then ([], cs) else (e :: sign ++ ds, body.dropWhile Char.isDigit)
    else ([], cs)
  | [] => ([], [])

/-- The parts of a number: its sign, its digits, its fraction with power, and what follows. -/
def takeNumber? (cs : List Char) : Option (Bool × List Char × List Char × List Char) :=
  let (negative, body) :=
    match cs with
    | '-' :: r => (true, r)
    | r => (false, r)
  (takeWhole? body).map fun (whole, r) =>
    let (fraction, r) := takeFraction r
    let (power, r) := takePower r
    (negative, whole, fraction ++ power, r)

/-- The number of a sign, digits, and a fraction with power. -/
def numberOf (negative : Bool) (whole fraction : List Char) : Outcome Datum :=
  if fraction.isEmpty then
    if Text.maxDigits < whole.length then .error (.numberTooLong whole.length)
    else .ok (.int (Decimal.toSigned negative (Text.digitsValue whole)))
  else
    match (Numeral.read? (Decimal.signed negative (whole ++ fraction))).bind Numeral.toDecimal? with
    | some n => .ok (.decimal n)
    | none => .error (.arithmetic .invalidOperation)

/-! ## Values -/

/-- The words of the notation and what they denote. -/
def words : List (List Char × Datum) :=
  [(['n', 'u', 'l', 'l'], .null), (['t', 'r', 'u', 'e'], .bool true),
   (['f', 'a', 'l', 's', 'e'], .bool false), (['N', 'a', 'N'], .float .undefined),
   (['I', 'n', 'f', 'i', 'n', 'i', 't', 'y'], .float (.infinite false)),
   (['-', 'I', 'n', 'f', 'i', 'n', 'i', 't', 'y'], .float (.infinite true))]

/-- A rest that is known to be shorter. -/
def restOf? (cs rest : List Char) : Option (Rest cs) :=
  if h : rest.length < cs.length then some ⟨rest, h⟩ else none

/-- A word or a number at the start of a text, and what follows it. -/
def readScalar (cs : List Char) : Outcome (Datum × Rest cs) :=
  match words.findSome? fun (word, d) =>
    if word.isPrefixOf cs then (restOf? cs (cs.drop word.length)).map (d, ·) else none with
  | some found => .ok found
  | none =>
    match takeNumber? cs with
    | none => .error .invalidJson
    | some (negative, whole, fraction, r) =>
      match restOf? cs r, numberOf negative whole fraction with
      | some rest, .ok d => .ok (d, rest)
      | _, .error f => .error f
      | none, _ => .error .invalidJson

mutual

/-- A value at the start of a text, after blanks, and what follows it. -/
def readValue (room : Room) (cs : List Char) : Outcome (Datum × Rest cs) :=
  match h : skipBlanks cs with
  | [] => .error .invalidJson
  | '"' :: r =>
    match readString? r with
    | none => .error .invalidJson
    | some (s, ⟨rest, hrest⟩) =>
      .ok (.text (String.ofList s), ⟨rest, by
        have := length_skipBlanks_le cs
        simp only [h, List.length_cons] at this
        omega⟩)
  | '[' :: r =>
    match room.inside? with
    | none => .error (.nestedTooDeep "decoding a JSON array from a unicode string")
    | some inner =>
      match hr : skipBlanks r with
      | ']' :: rest =>
        .ok (.list [], ⟨rest, by
          have := length_skipBlanks_le cs
          have := length_skipBlanks_le r
          simp only [h, hr, List.length_cons] at *
          omega⟩)
      | _ =>
        match readItems inner r with
        | .error f => .error f
        | .ok (items, ⟨rest, hrest⟩) =>
          .ok (.list items, ⟨rest, by
            have := length_skipBlanks_le cs
            simp only [h, List.length_cons] at this
            omega⟩)
  | '\x7b' :: r =>
    match room.inside? with
    | none => .error (.nestedTooDeep "decoding a JSON object from a unicode string")
    | some inner =>
      match hr : skipBlanks r with
      | '\x7d' :: rest =>
        .ok (.map [], ⟨rest, by
          have := length_skipBlanks_le cs
          have := length_skipBlanks_le r
          simp only [h, hr, List.length_cons] at *
          omega⟩)
      | _ =>
        match readMembers inner r with
        | .error f => .error f
        | .ok (entries, ⟨rest, hrest⟩) =>
          .ok (.ofEntries entries, ⟨rest, by
            have := length_skipBlanks_le cs
            simp only [h, List.length_cons] at this
            omega⟩)
  | c :: r =>
    match readScalar (c :: r) with
    | .error f => .error f
    | .ok (d, ⟨rest, hrest⟩) =>
      .ok (d, ⟨rest, by
        have := length_skipBlanks_le cs
        simp only [h] at this
        omega⟩)
termination_by (cs.length, 0)
decreasing_by
  all_goals
    have := length_skipBlanks_le cs
    simp only [h, List.length_cons] at this
    exact Prod.Lex.left _ _ (by omega)

/-- The items of a list up to its closing bracket, and what follows it. -/
def readItems (room : Room) (cs : List Char) : Outcome (List Datum × Rest cs) :=
  match readValue room cs with
  | .error f => .error f
  | .ok (d, ⟨r, hr⟩) =>
    match h : skipBlanks r with
    | ']' :: rest =>
      .ok ([d], ⟨rest, by
        have := length_skipBlanks_le r
        simp only [h, List.length_cons] at this
        omega⟩)
    | ',' :: r' =>
      match readItems room r' with
      | .error f => .error f
      | .ok (ds, ⟨rest, hrest⟩) =>
        .ok (d :: ds, ⟨rest, by
          have := length_skipBlanks_le r
          simp only [h, List.length_cons] at this
          omega⟩)
    | _ => .error .invalidJson
termination_by (cs.length, 1)
decreasing_by
  · exact Prod.Lex.right _ (by omega)
  · have := length_skipBlanks_le r
    simp only [h, List.length_cons] at this
    exact Prod.Lex.left _ _ (by omega)

/-- The entries of a mapping up to its closing brace, and what follows it. -/
def readMembers (room : Room) (cs : List Char) : Outcome (List (Datum × Datum) × Rest cs) :=
  match h₁ : skipBlanks cs with
  | '"' :: r₁ =>
    match readString? r₁ with
    | none => .error .invalidJson
    | some (key, ⟨r₂, hr₂⟩) =>
      match h₂ : skipBlanks r₂ with
      | ':' :: r₃ =>
        match readValue room r₃ with
        | .error f => .error f
        | .ok (d, ⟨r₄, hr₄⟩) =>
          match h₃ : skipBlanks r₄ with
          | '\x7d' :: rest =>
            .ok ([(.text (String.ofList key), d)], ⟨rest, by
              have := length_skipBlanks_le cs
              have := length_skipBlanks_le r₂
              have := length_skipBlanks_le r₄
              simp only [h₁, h₂, h₃, List.length_cons] at *
              omega⟩)
          | ',' :: r₅ =>
            match readMembers room r₅ with
            | .error f => .error f
            | .ok (entries, ⟨rest, hrest⟩) =>
              .ok ((.text (String.ofList key), d) :: entries, ⟨rest, by
                have := length_skipBlanks_le cs
                have := length_skipBlanks_le r₂
                have := length_skipBlanks_le r₄
                simp only [h₁, h₂, h₃, List.length_cons] at *
                omega⟩)
          | _ => .error .invalidJson
      | _ => .error .invalidJson
  | _ => .error .invalidJson
termination_by (cs.length, 1)
decreasing_by
  · have := length_skipBlanks_le cs
    have := length_skipBlanks_le r₂
    simp only [h₁, h₂, List.length_cons] at *
    exact Prod.Lex.left _ _ (by omega)
  · have := length_skipBlanks_le cs
    have := length_skipBlanks_le r₂
    have := length_skipBlanks_le r₄
    simp only [h₁, h₂, h₃, List.length_cons] at *
    exact Prod.Lex.left _ _ (by omega)

end

/-- The datum that a whole text denotes. -/
def read (room : Room) (s : String) : Outcome Datum :=
  match readValue room s.toList with
  | .error f => .error f
  | .ok (d, ⟨rest, _⟩) => if (skipBlanks rest).isEmpty then .ok d else .error .invalidJson

end BusinessRules.Json

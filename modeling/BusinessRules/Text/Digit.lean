/-!
# Decimal digits

Numbers may be written with the decimal digits of any script.  Every script keeps its ten digits
in one run of consecutive code points, so a table of the zeros is enough.

## Main definitions

* `digitValue?`: the value of a digit, if the character is one
* `isDigit`: the character class
* `ofDigits`: the number that a sequence of digit values spells
* `maxDigits`: how many digits may be converted

## Main statements

* `ofDigits_eq_foldl`: each digit counts ten times as much as the one after it
-/

namespace BusinessRules.Text

/- Powers are the plain ones of the natural numbers and the integers. -/
attribute [local instance (2000)] instPowNat

/-- The code points of the zeros of all scripts, in ascending order. -/
def digitZeros : List Nat :=
  [0x30, 0x660, 0x6F0, 0x7C0, 0x966, 0x9E6, 0xA66, 0xAE6, 0xB66, 0xBE6, 0xC66, 0xCE6, 0xD66,
   0xDE6, 0xE50, 0xED0, 0xF20, 0x1040, 0x1090, 0x17E0, 0x1810, 0x1946, 0x19D0, 0x1A80, 0x1A90,
   0x1B50, 0x1BB0, 0x1C40, 0x1C50, 0xA620, 0xA8D0, 0xA900, 0xA9D0, 0xA9F0, 0xAA50, 0xABF0,
   0xFF10, 0x104A0, 0x10D30, 0x11066, 0x110F0, 0x11136, 0x111D0, 0x112F0, 0x11450, 0x114D0,
   0x11650, 0x116C0, 0x11730, 0x118E0, 0x11950, 0x11C50, 0x11D50, 0x11DA0, 0x16A60, 0x16AC0,
   0x16B50, 0x1D7CE, 0x1D7D8, 0x1D7E2, 0x1D7EC, 0x1D7F6, 0x1E140, 0x1E2F0, 0x1E950, 0x1FBF0]

/-- The value of a decimal digit of any script. -/
def digitValue? (c : Char) : Option Nat :=
  (digitZeros.find? fun z => z ≤ c.toNat && c.toNat < z + 10).map (c.toNat - ·)

/-- A character is a digit if it has a digit value. -/
def isDigit (c : Char) : Bool := (digitValue? c).isSome

/-- The number that digit values spell, the most significant first.  Long runs are halved, which
takes far fewer steps than going on digit by digit. -/
def ofDigits (ds : List Nat) : Nat :=
  if ds.length ≤ 32 then ds.foldl (fun n d => 10 * n + d) 0
  else
    let tail := ds.length / 2
    let front := ds.length - tail
    ofDigits (ds.take front) * 10 ^ tail + ofDigits (ds.drop front)
termination_by ds.length
decreasing_by all_goals simp only [List.length_take, List.length_drop]; omega

theorem foldl_digits (n : Nat) (ds : List Nat) :
    ds.foldl (fun n d => 10 * n + d) n =
      n * 10 ^ ds.length + ds.foldl (fun n d => 10 * n + d) 0 := by
  induction ds generalizing n with
  | nil => simp
  | cons d ds ih =>
    rw [List.foldl_cons, List.foldl_cons, ih, ih (10 * 0 + d), List.length_cons, Nat.pow_succ]
    simp only [Nat.mul_zero, Nat.zero_add, Nat.add_mul, Nat.add_assoc]
    rw [Nat.mul_comm 10 n, Nat.mul_assoc n 10, Nat.mul_comm 10 (10 ^ _)]

/-- Each digit counts ten times as much as the one after it. -/
theorem ofDigits_eq_foldl (ds : List Nat) :
    ofDigits ds = ds.foldl (fun n d => 10 * n + d) 0 := by
  fun_induction ofDigits ds with
  | case1 ds h => rfl
  | case2 ds h tail front ih₁ ih₂ =>
    have hlen : (ds.drop front).length = tail := by
      simp only [List.length_drop, front, tail]
      omega
    rw [ih₁, ih₂, ← hlen, ← foldl_digits, ← List.foldl_append, List.take_append_drop]

/-- How many decimal digits a whole number may have that is converted from a text or into one. -/
def maxDigits : Nat := 4300

/-- The number that a run of digit characters spells. -/
def digitsValue (cs : List Char) : Nat := ofDigits (cs.filterMap digitValue?)

end BusinessRules.Text

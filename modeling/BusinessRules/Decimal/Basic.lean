/-!
# Decimal numbers

The numbers of the rule language are decimals of any length: a sign, a natural coefficient and a
power of ten, with `1.0` and `1.00` kept apart.  Beside the finite numbers there are two
infinities and the undefined numbers, which may carry a diagnostic payload and may be marked to
fail as soon as they are used.

## Main definitions

* `Decimal`: the numbers
* `digitCount`: how many decimal digits a natural number has
* `Decimal.adjusted`: the position of the leading digit
* `ArithmeticFault`: why an operation on decimals fails

## Main statements

* `digitCount_le_iff`: at most `k` digits means less than `10 ^ k`
-/

namespace BusinessRules

/- Powers are the plain ones of the natural numbers and the integers. -/
attribute [local instance (2000)] instPowNat

/-- A decimal number, `± coefficient · 10 ^ exponent`, or a number that is not finite. -/
inductive Decimal where
  | finite (negative : Bool) (coefficient : Nat) (exponent : Int)
  | infinite (negative : Bool)
  | undefined (negative signaling : Bool) (payload : Nat)
  deriving DecidableEq, Repr, Inhabited

/-- Why an operation on decimals has no result. -/
inductive ArithmeticFault where
  | invalidOperation
  | overflow
  /-- A result has more digits than memory holds. -/
  | tooLong
  deriving DecidableEq, Repr

/-- Not more than the number of decimal digits of a natural number, and nearly that for a long one:
three for every ten binary digits. -/
def digitEstimate (n : Nat) : Nat := 3 * (n.log2 / 10)

theorem pow_digitEstimate_le {n : Nat} (h : 0 < digitEstimate n) : 10 ^ digitEstimate n ≤ n := by
  have hn : n ≠ 0 := by
    rintro rfl
    simp [digitEstimate] at h
  calc 10 ^ digitEstimate n
      = (10 ^ 3) ^ (n.log2 / 10) := by rw [digitEstimate, Nat.pow_mul]
    _ ≤ (2 ^ 10) ^ (n.log2 / 10) := Nat.pow_le_pow_left (by decide) _
    _ = 2 ^ (10 * (n.log2 / 10)) := by rw [Nat.pow_mul]
    _ ≤ 2 ^ n.log2 := Nat.pow_le_pow_right (by decide) (Nat.mul_div_le _ _)
    _ ≤ n := Nat.log2_self_le hn

theorem div_pow_digitEstimate_lt {n : Nat} (h : 0 < digitEstimate n) :
    n / 10 ^ digitEstimate n < n := by
  have hle := pow_digitEstimate_le h
  have hpow : 1 < 10 ^ digitEstimate n := Nat.one_lt_pow (by omega) (by decide)
  exact Nat.div_lt_self (by omega) hpow

/-- The number of decimal digits of a natural number, one for zero.  Of a long number nearly all
digits are counted at once. -/
def digitCount (n : Nat) : Nat :=
  if 0 < digitEstimate n then digitEstimate n + digitCount (n / 10 ^ digitEstimate n)
  else if 10 ≤ n then 1 + digitCount (n / 10)
  else 1
termination_by n
decreasing_by
  · exact div_pow_digitEstimate_lt (by assumption)
  · omega

theorem digitCount_pos (n : Nat) : 1 ≤ digitCount n := by
  unfold digitCount
  split
  · omega
  · split <;> omega

/-- Counting a block of digits apart. -/
theorem add_le_iff_lt_pow {n b c k : Nat} (hb : 10 ^ b ≤ n) (hc : 1 ≤ c)
    (h : ∀ j, 1 ≤ j → (c ≤ j ↔ n / 10 ^ b < 10 ^ j)) : b + c ≤ k ↔ n < 10 ^ k := by
  by_cases hk : k ≤ b
  · have : 10 ^ k ≤ 10 ^ b := Nat.pow_le_pow_right (by decide) hk
    omega
  · obtain ⟨j, rfl⟩ : ∃ j, k = b + j := ⟨k - b, by omega⟩
    rw [Nat.add_le_add_iff_left, h j (by omega), Nat.pow_add,
      Nat.div_lt_iff_lt_mul (Nat.pow_pos (by decide)), Nat.mul_comm]

/-- A positive number of digits bounds a number exactly if a power of ten does. -/
theorem digitCount_le_iff (n k : Nat) (hk : 1 ≤ k) : digitCount n ≤ k ↔ n < 10 ^ k := by
  induction n using Nat.strongRecOn generalizing k with
  | _ n ih =>
    unfold digitCount
    split
    · rename_i hn
      exact add_le_iff_lt_pow (pow_digitEstimate_le hn) (digitCount_pos _)
        (ih _ (div_pow_digitEstimate_lt hn))
    · split
      · rename_i hn
        exact add_le_iff_lt_pow (b := 1) (by omega) (digitCount_pos _) (ih _ (by omega))
      · have : 10 ^ 1 ≤ 10 ^ k := Nat.pow_le_pow_right (by decide) hk
        omega

namespace Decimal

/-- The number zero, written `0`. -/
def zero : Decimal := .finite false 0 0

/-- A whole number, with no digits after the point. -/
def ofInt (n : Int) : Decimal := .finite (n < 0) n.natAbs 0

/-- The power of ten of the leading digit of `coefficient · 10 ^ exponent`. -/
def adjusted (coefficient : Nat) (exponent : Int) : Int :=
  exponent + digitCount coefficient - 1

/-- A finite number with coefficient zero. -/
def isZero : Decimal → Bool
  | .finite _ c _ => c == 0
  | _ => false

end Decimal

end BusinessRules

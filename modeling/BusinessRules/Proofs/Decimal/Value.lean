import Mathlib
import BusinessRules.Decimal.Arithmetic

/-!
# The numbers that decimals denote

A number has many decimals: `1`, `1.0` and `10E-1` differ as decimals and denote the same
rational.  This module names that rational and proves that exact comparison is comparison of
rationals.  It also gives the principle by which every later congruence is proved: whatever does
not change when zeros are appended to a coefficient depends on the number alone.

## Main definitions

* `Decimal.toRat`: the rational that a finite decimal denotes
* `Decimal.IsFinite`: a decimal that denotes one
* `Decimal.Same`: two decimals of one number

## Main statements

* `compare_finite`: exact comparison compares the rationals
* `congr_of_toRat_eq`: functions that appended zeros do not change depend on the rational alone
-/

namespace BusinessRules

/- Powers are the plain ones of the natural numbers and the integers. -/
attribute [local instance (2000)] instPowNat

/-! ## Counting digits -/

theorem lt_pow_digitCount (n : Nat) : n < 10 ^ digitCount n :=
  (digitCount_le_iff n _ (digitCount_pos n)).1 (Nat.le_refl _)

theorem pow_pred_digitCount_le {n : Nat} (hn : n ≠ 0) : 10 ^ (digitCount n - 1) ≤ n := by
  rcases Nat.lt_or_ge 1 (digitCount n) with h | h
  · by_contra hlt
    have := (digitCount_le_iff n (digitCount n - 1) (by omega)).2 (by omega)
    omega
  · have : digitCount n - 1 = 0 := by omega
    rw [this, pow_zero]
    omega

/-- The number of digits is told by the powers of ten on both sides. -/
theorem digitCount_eq_succ {n d : Nat} (hlo : 10 ^ d ≤ n) (hhi : n < 10 ^ (d + 1)) :
    digitCount n = d + 1 := by
  have hle := (digitCount_le_iff n (d + 1) (by omega)).2 hhi
  have hlt := lt_pow_digitCount n
  by_contra hne
  have : 10 ^ digitCount n ≤ 10 ^ d := Nat.pow_le_pow_right (by decide) (by omega)
  omega

/-- Appended zeros are digits. -/
theorem digitCount_mul_pow {c : Nat} (hc : c ≠ 0) (k : Nat) :
    digitCount (c * 10 ^ k) = digitCount c + k := by
  have hpos := digitCount_pos c
  have hlo := pow_pred_digitCount_le hc
  have hhi := lt_pow_digitCount c
  have hsucc : digitCount (c * 10 ^ k) = (digitCount c - 1 + k) + 1 := by
    refine digitCount_eq_succ ?_ ?_
    · rw [pow_add]
      exact Nat.mul_le_mul_right _ hlo
    · rw [show digitCount c - 1 + k + 1 = digitCount c + k by omega, pow_add]
      exact Nat.mul_lt_mul_of_pos_right hhi (by positivity)
  omega

namespace Decimal

/-! ## Denotation -/

/-- The rational that a finite decimal denotes; the others stand for zero. -/
def toRat : Decimal → ℚ
  | .finite n c e => (toSigned n c : ℚ) * 10 ^ e
  | _ => 0

/-- A decimal that denotes a rational. -/
def IsFinite (x : Decimal) : Prop := ∃ n c e, x = .finite n c e

/-- Two decimals of one number. -/
structure Same (x y : Decimal) : Prop where
  left : x.IsFinite
  right : y.IsFinite
  toRat_eq : x.toRat = y.toRat

theorem isFinite_finite (n : Bool) (c : Nat) (e : Int) : (finite n c e).IsFinite := ⟨n, c, e, rfl⟩

theorem Same.refl {x : Decimal} (h : x.IsFinite) : Same x x := ⟨h, h, rfl⟩

theorem Same.symm {x y : Decimal} (h : Same x y) : Same y x := ⟨h.right, h.left, h.toRat_eq.symm⟩

theorem Same.trans {x y z : Decimal} (h : Same x y) (h' : Same y z) : Same x z :=
  ⟨h.left, h'.right, h.toRat_eq.trans h'.toRat_eq⟩

theorem toRat_finite (n : Bool) (c : Nat) (e : Int) :
    (finite n c e).toRat = (toSigned n c : ℚ) * 10 ^ e := rfl

theorem toSigned_cast (n : Bool) (c : Nat) :
    (toSigned n c : ℚ) = (if n then -1 else 1) * (c : ℚ) := by
  cases n <;> simp [toSigned]

@[simp] theorem toRat_zero (n : Bool) (e : Int) : (finite n 0 e).toRat = 0 := by
  simp [toRat_finite, toSigned_cast]

/-- Appending zeros and lowering the exponent by their number keeps the number. -/
theorem toRat_shift (n : Bool) (c k : Nat) (e : Int) :
    (finite n (c * 10 ^ k) (e - k)).toRat = (finite n c e).toRat := by
  have h10 : (10 : ℚ) ^ (k : ℤ) * 10 ^ (e - k) = 10 ^ e := by
    rw [← zpow_add₀ (by norm_num : (10 : ℚ) ≠ 0), add_sub_cancel]
  rw [toRat_finite, toRat_finite, toSigned_cast, toSigned_cast, ← h10]
  push_cast
  rw [zpow_natCast]
  ring

theorem toRat_not (n : Bool) (c : Nat) (e : Int) :
    (finite (!n) c e).toRat = -(finite n c e).toRat := by
  rw [toRat_finite, toRat_finite, toSigned_cast, toSigned_cast]
  cases n <;> simp

theorem toRat_flip {x : Decimal} (h : x.IsFinite) : x.flip.toRat = -x.toRat := by
  obtain ⟨n, c, e, rfl⟩ := h
  exact toRat_not n c e

theorem toRat_eq_zero_iff {n : Bool} {c : Nat} {e : Int} : (finite n c e).toRat = 0 ↔ c = 0 := by
  have h10 : (10 : ℚ) ^ e ≠ 0 := zpow_ne_zero _ (by norm_num)
  have hs : (if n then (-1 : ℚ) else 1) ≠ 0 := by cases n <;> norm_num
  rw [toRat_finite, toSigned_cast, mul_eq_zero, mul_eq_zero]
  simp [h10, hs]

/-- The sign of a decimal other than zero is that of its number. -/
theorem toRat_neg_iff {n : Bool} {c : Nat} {e : Int} :
    (finite n c e).toRat < 0 ↔ n = true ∧ c ≠ 0 := by
  have h10 : (0 : ℚ) < 10 ^ e := zpow_pos (by norm_num) e
  have hc : (0 : ℚ) ≤ c := Nat.cast_nonneg c
  rw [toRat_finite, toSigned_cast]
  cases n with
  | false =>
    simp only [Bool.false_eq_true, if_false, one_mul, false_and, iff_false, not_lt]
    positivity
  | true =>
    simp only [if_true, true_and, neg_mul, one_mul, Left.neg_neg_iff, mul_pos_iff_of_pos_right h10,
      Nat.cast_pos, Nat.pos_iff_ne_zero]

/-! ## Functions of the number alone -/

/-- Of two decimals of one number other than zero, the one with the lower exponent has the zeros
appended that the other one lacks. -/
theorem eq_shift_of_toRat_eq {n₁ n₂ : Bool} {c₁ c₂ : Nat} {e₁ e₂ : Int}
    (h : (finite n₁ c₁ e₁).toRat = (finite n₂ c₂ e₂).toRat) (hc : c₁ ≠ 0) (he : e₂ ≤ e₁) :
    ∃ k : Nat, n₂ = n₁ ∧ c₂ = c₁ * 10 ^ k ∧ e₂ = e₁ - k := by
  obtain ⟨k, rfl⟩ : ∃ k : Nat, e₂ = e₁ - k := ⟨(e₁ - e₂).toNat, by omega⟩
  have hne : (finite n₁ c₁ e₁).toRat ≠ 0 := fun h0 => hc (toRat_eq_zero_iff.1 h0)
  have hc₂ : c₂ ≠ 0 := fun h0 => hne (by rw [h, h0, toRat_zero])
  -- The sign is read off the number, then the coefficients are compared at one exponent.
  have hn : n₂ = n₁ := by
    have hiff : n₁ = true ↔ n₂ = true := by
      have h₁ : (finite n₁ c₁ e₁).toRat < 0 ↔ n₁ = true ∧ c₁ ≠ 0 := toRat_neg_iff
      have h₂ : (finite n₂ c₂ (e₁ - k)).toRat < 0 ↔ n₂ = true ∧ c₂ ≠ 0 := toRat_neg_iff
      rw [h] at h₁
      rw [h₁] at h₂
      simpa [hc, hc₂] using h₂
    cases n₁ <;> cases n₂ <;> simp_all
  refine ⟨k, hn, ?_, rfl⟩
  subst hn
  have h10 : (10 : ℚ) ^ (e₁ - k) ≠ 0 := zpow_ne_zero _ (by norm_num)
  have hs : (if n₂ then (-1 : ℚ) else 1) ≠ 0 := by cases n₂ <;> norm_num
  rw [← toRat_shift n₂ c₁ k e₁, toRat_finite, toRat_finite, toSigned_cast, toSigned_cast] at h
  exact_mod_cast (mul_left_cancel₀ hs (mul_right_cancel₀ h10 h)).symm

/-- **Functions of the number alone.**  What all zeros agree on, and what appending zeros to a
coefficient does not change, depends only on the rational that a decimal denotes. -/
theorem congr_of_toRat_eq {β : Type*} (F : Bool → Nat → Int → β)
    (hzero : ∀ n e n' e', F n 0 e = F n' 0 e')
    (hshift : ∀ n c e k, c ≠ 0 → F n (c * 10 ^ k) (e - (k : Nat)) = F n c e)
    {n₁ n₂ : Bool} {c₁ c₂ : Nat} {e₁ e₂ : Int}
    (h : (finite n₁ c₁ e₁).toRat = (finite n₂ c₂ e₂).toRat) : F n₁ c₁ e₁ = F n₂ c₂ e₂ := by
  by_cases hc₁ : c₁ = 0
  · have hc₂ : c₂ = 0 := by
      rw [← toRat_eq_zero_iff (n := n₂) (e := e₂), ← h, hc₁, toRat_zero]
    rw [hc₁, hc₂]
    exact hzero ..
  · have hc₂ : c₂ ≠ 0 := by
      rintro rfl
      exact hc₁ (toRat_eq_zero_iff.1 (h.trans (toRat_zero ..)))
    rcases le_total e₂ e₁ with he | he
    · obtain ⟨k, rfl, rfl, rfl⟩ := eq_shift_of_toRat_eq h hc₁ he
      exact (hshift n₂ c₁ e₁ k hc₁).symm
    · obtain ⟨k, rfl, rfl, rfl⟩ := eq_shift_of_toRat_eq h.symm hc₂ he
      exact hshift n₁ c₂ e₂ k hc₂

/-! ## Comparison -/

theorem eq_cmp {α : Type*} [LinearOrder α] {o : Ordering} {x y : α} (hlt : o = .lt ↔ x < y)
    (heq : o = .eq ↔ x = y) : o = cmp x y := by
  rcases lt_trichotomy x y with h | h | h
  · rw [hlt.2 h, (cmp_eq_lt_iff x y).2 h]
  · rw [heq.2 h, (cmp_eq_eq_iff x y).2 h]
  · rw [(cmp_eq_gt_iff x y).2 h]
    cases o with
    | lt => exact absurd (hlt.1 rfl) (not_lt_of_gt h)
    | eq => exact absurd (heq.1 rfl) (ne_of_gt h)
    | gt => rfl

theorem nat_compare_eq_cmp (a b : Nat) : Ord.compare a b = cmp (a : ℚ) (b : ℚ) :=
  eq_cmp (by rw [Nat.compare_eq_lt]; exact Nat.cast_lt.symm)
    (by rw [Nat.compare_eq_eq]; exact Nat.cast_inj.symm)

/-- Magnitudes lie between the powers of ten of their leading digits. -/
theorem magnitude_bounds {c : Nat} (hc : c ≠ 0) (e : Int) :
    (10 : ℚ) ^ adjusted c e ≤ c * 10 ^ e ∧ (c : ℚ) * 10 ^ e < 10 ^ (adjusted c e + 1) := by
  have h10 : (0 : ℚ) < 10 ^ e := zpow_pos (by norm_num) e
  have hpos := digitCount_pos c
  constructor
  · have hlo : ((10 ^ (digitCount c - 1) : Nat) : ℚ) ≤ c := by
      exact_mod_cast pow_pred_digitCount_le hc
    rw [show adjusted c e = ((digitCount c - 1 : Nat) : ℤ) + e by simp only [adjusted]; omega,
      zpow_add₀ (by norm_num), zpow_natCast]
    push_cast at hlo
    exact mul_le_mul_of_nonneg_right hlo h10.le
  · have hhi : (c : ℚ) < ((10 ^ digitCount c : Nat) : ℚ) := by
      exact_mod_cast lt_pow_digitCount c
    rw [show adjusted c e + 1 = (digitCount c : ℤ) + e by simp only [adjusted]; omega,
      zpow_add₀ (by norm_num), zpow_natCast]
    push_cast at hhi
    exact mul_lt_mul_of_pos_right hhi h10

theorem magnitude_lt_of_adjusted_lt {c₁ c₂ : Nat} {e₁ e₂ : Int} (h₁ : c₁ ≠ 0) (h₂ : c₂ ≠ 0)
    (h : adjusted c₁ e₁ < adjusted c₂ e₂) : (c₁ : ℚ) * 10 ^ e₁ < c₂ * 10 ^ e₂ :=
  calc (c₁ : ℚ) * 10 ^ e₁ < 10 ^ (adjusted c₁ e₁ + 1) := (magnitude_bounds h₁ e₁).2
    _ ≤ 10 ^ adjusted c₂ e₂ := zpow_le_zpow_right₀ (by norm_num) (by omega)
    _ ≤ c₂ * 10 ^ e₂ := (magnitude_bounds h₂ e₂).1

theorem shifted_cast (c : Nat) (e₁ e₂ : Int) :
    (shifted c (e₁ - e₂).toNat : ℚ) * 10 ^ (min e₁ e₂) = c * 10 ^ e₁ := by
  have hmin : ((e₁ - e₂).toNat : ℤ) + min e₁ e₂ = e₁ := by omega
  unfold shifted
  split
  · next h => simp [h]
  · push_cast
    rw [mul_assoc, ← zpow_natCast, ← zpow_add₀ (by norm_num), hmin]

/-- The order of magnitudes is that of the numbers. -/
theorem compareMagnitude_eq (c₁ : Nat) (e₁ : Int) (c₂ : Nat) (e₂ : Int) :
    compareMagnitude c₁ e₁ c₂ e₂ = cmp ((c₁ : ℚ) * 10 ^ e₁) (c₂ * 10 ^ e₂) := by
  have h₁ : (0 : ℚ) < 10 ^ e₁ := zpow_pos (by norm_num) e₁
  have h₂ : (0 : ℚ) < 10 ^ e₂ := zpow_pos (by norm_num) e₂
  unfold compareMagnitude
  split
  · next hzero =>
    rw [nat_compare_eq_cmp]
    rcases (by simpa using hzero : c₁ = 0 ∨ c₂ = 0) with h | h <;> subst h
    · refine eq_cmp ?_ ?_
      · rw [cmp_eq_lt_iff, Nat.cast_zero, zero_mul, mul_pos_iff_of_pos_right h₂]
      · rw [cmp_eq_eq_iff, Nat.cast_zero, zero_mul, zero_eq_mul]
        simp [h₂.ne', eq_comm]
    · refine eq_cmp ?_ ?_
      · rw [cmp_eq_lt_iff, Nat.cast_zero, zero_mul, ← not_le, ← not_le,
          mul_nonneg_iff_of_pos_right h₁]
      · rw [cmp_eq_eq_iff, Nat.cast_zero, zero_mul, mul_eq_zero]
        simp [h₁.ne']
  · next hzero =>
    obtain ⟨hc₁, hc₂⟩ : c₁ ≠ 0 ∧ c₂ ≠ 0 := by simpa using hzero
    split
    · next hne =>
      -- Numbers whose leading digits stand at different places are ordered by these places.
      rcases lt_or_gt_of_ne hne with h | h
      · rw [(Int.compare_eq_lt).2 h, (cmp_eq_lt_iff _ _).2 (magnitude_lt_of_adjusted_lt hc₁ hc₂ h)]
      · rw [(Int.compare_eq_gt).2 h, (cmp_eq_gt_iff _ _).2 (magnitude_lt_of_adjusted_lt hc₂ hc₁ h)]
    · have hmin : (0 : ℚ) < 10 ^ min e₁ e₂ := zpow_pos (by norm_num) _
      rw [nat_compare_eq_cmp, ← shifted_cast c₁ e₁ e₂, ← shifted_cast c₂ e₂ e₁, min_comm e₂ e₁]
      refine eq_cmp ?_ ?_
      · rw [cmp_eq_lt_iff, mul_lt_mul_iff_left₀ hmin]
      · rw [cmp_eq_eq_iff, mul_left_inj' hmin.ne']

/-- **Exact comparison compares the rationals.** -/
theorem compare_finite (n₁ : Bool) (c₁ : Nat) (e₁ : Int) (n₂ : Bool) (c₂ : Nat) (e₂ : Int) :
    compareFinite n₁ c₁ e₁ n₂ c₂ e₂ = cmp (finite n₁ c₁ e₁).toRat (finite n₂ c₂ e₂).toRat := by
  have h₁ : (0 : ℚ) < 10 ^ e₁ := zpow_pos (by norm_num) e₁
  have h₂ : (0 : ℚ) < 10 ^ e₂ := zpow_pos (by norm_num) e₂
  -- A zero is taken as positive, whatever its sign.
  have hpos : ∀ {n : Bool} {c : Nat} {e : Int}, (n && c != 0) = false →
      (finite n c e).toRat = c * 10 ^ e := by
    intro n c e h
    rw [toRat_finite, toSigned_cast]
    cases n <;> simp_all
  have hneg : ∀ {n : Bool} {c : Nat} {e : Int}, (n && c != 0) = true →
      (finite n c e).toRat = -(c * 10 ^ e) ∧ (finite n c e).toRat < 0 := by
    intro n c e h
    have hn : n = true ∧ c ≠ 0 := by simpa using h
    refine ⟨?_, toRat_neg_iff.2 hn⟩
    rw [toRat_finite, toSigned_cast, hn.1]
    simp
  unfold compareFinite
  split
  · next hn₁ hn₂ => rw [compareMagnitude_eq, hpos hn₁, hpos hn₂]
  · next hn₁ hn₂ =>
    rw [hpos hn₁, eq_comm, cmp_eq_gt_iff]
    exact lt_of_lt_of_le (hneg hn₂).2 (by positivity)
  · next hn₁ hn₂ =>
    rw [hpos hn₂, eq_comm, cmp_eq_lt_iff]
    exact lt_of_lt_of_le (hneg hn₁).2 (by positivity)
  · next hn₁ hn₂ =>
    rw [compareMagnitude_eq, (hneg hn₁).1, (hneg hn₂).1]
    refine eq_cmp ?_ ?_
    · rw [cmp_eq_lt_iff, neg_lt_neg_iff]
    · rw [cmp_eq_eq_iff, neg_inj, eq_comm]

/-- Two finite decimals compare equal exactly if they denote one number. -/
theorem compare_eq_iff {x y : Decimal} (hx : x.IsFinite) (hy : y.IsFinite) :
    x.compare y = .ok .eq ↔ x.toRat = y.toRat := by
  obtain ⟨n₁, c₁, e₁, rfl⟩ := hx
  obtain ⟨n₂, c₂, e₂, rfl⟩ := hy
  rw [compare, compare_finite, Except.ok.injEq, cmp_eq_eq_iff]

/-- Comparison sees the number alone. -/
theorem compare_congr_right {x y y' : Decimal} (h : Same y y') : x.compare y = x.compare y' := by
  obtain ⟨⟨n₁, c₁, e₁, rfl⟩, ⟨n₂, c₂, e₂, rfl⟩, hy⟩ := h
  cases x with
  | finite n c e => rw [compare, compare, compare_finite, compare_finite, hy]
  | infinite n => rfl
  | undefined n s d => rfl

theorem equalsZero_congr {x y : Decimal} (h : Same x y) : x.equalsZero = y.equalsZero := by
  obtain ⟨⟨n₁, c₁, e₁, rfl⟩, ⟨n₂, c₂, e₂, rfl⟩, hxy⟩ := h
  have hiff : c₁ = 0 ↔ c₂ = 0 := by
    rw [← toRat_eq_zero_iff (n := n₁) (e := e₁), hxy, toRat_eq_zero_iff]
  simp only [equalsZero, Except.ok.injEq]
  rcases Nat.eq_zero_or_pos c₁ with h | h
  · rw [h, hiff.1 h]
  · have h₂ : c₂ ≠ 0 := fun h0 => (Nat.pos_iff_ne_zero.1 h) (hiff.2 h0)
    rw [beq_eq_false_iff_ne.2 (Nat.pos_iff_ne_zero.1 h), beq_eq_false_iff_ne.2 h₂]

end Decimal

end BusinessRules

import BusinessRules.Decimal.Numeral
import BusinessRules.Proofs.Decimal.Value

/-!
# Rounding depends on the number alone

The rounding step sees a coefficient and an exponent.  Appending zeros to the coefficient moves
the place at which it is cut by as many digits, so the rounded number is the same; and a number
that needs no more digits than the precision allows comes out as it went in.

## Main definitions

* `Decimal.InRange`: the decimals that a numeral can denote
* `Decimal.Fits`: the decimals whose number needs no rounding at a precision
* `Decimal.Rounded`: the decimals that the rounding step leaves
* `Agree`: two results that are the same fault, or values in a relation

## Main statements

* `round_shift`: the rounded number does not change when zeros are appended
* `rounded_round`: rounding leaves no more digits than the precision allows
* `round_fits`, `round_of_short`: rounded numbers need no more rounding
* `rounded_mul`: finite products are rounded, whatever the operands are
* `mul_congr`, `neg_congr`: products and negations depend on the numbers alone
-/

namespace BusinessRules

/- Powers are the plain ones of the natural numbers and the integers. -/
attribute [local instance (2000)] instPowNat

/-- Two results agree if both are faults in one relation, or both are values in another. -/
inductive Agree {ε α β : Type*} (E : ε → ε → Prop) (R : α → β → Prop) :
    Except ε α → Except ε β → Prop where
  | error {f g : ε} (h : E f g) : Agree E R (.error f) (.error g)
  | ok {a : α} {b : β} (h : R a b) : Agree E R (.ok a) (.ok b)

/-! ## Halves to even -/

/-- A common factor of both numbers does not change the rounded quotient. -/
theorem roundHalfEven_mul (c d : Nat) {k : Nat} (hk : 0 < k) :
    roundHalfEven (c * k) (d * k) = roundHalfEven c d := by
  have hlt : 2 * (c % d * k) < d * k ↔ 2 * (c % d) < d := by
    rw [← mul_assoc, Nat.mul_lt_mul_right hk]
  have hgt : d * k < 2 * (c % d * k) ↔ d < 2 * (c % d) := by
    rw [← mul_assoc, Nat.mul_lt_mul_right hk]
  simp only [roundHalfEven, Nat.mul_div_mul_right _ _ hk, Nat.mul_mod_mul_right, hlt, hgt]

theorem roundHalfEven_mul_self (c : Nat) {d : Nat} (hd : 0 < d) :
    roundHalfEven (c * d) d = c := by
  simp [roundHalfEven, Nat.mul_div_cancel _ hd, hd]

theorem roundHalfEven_one (c : Nat) : roundHalfEven c 1 = c := by
  simpa using roundHalfEven_mul_self c Nat.one_pos

theorem roundHalfEven_le (c d : Nat) : roundHalfEven c d ≤ c / d + 1 := by
  unfold roundHalfEven
  simp only
  split
  · omega
  · split <;> omega

namespace Decimal

/-- Cutting a coefficient shorter than the cut is rounding it, too. -/
theorem dropDigits_eq (c places : Nat) : dropDigits c places = roundHalfEven c (10 ^ places) := by
  unfold dropDigits
  split
  · next h =>
    have hc : c < 10 ^ (places - 1) :=
      Nat.lt_of_lt_of_le (lt_pow_digitCount c) (Nat.pow_le_pow_right (by decide) (by omega))
    have hp : 10 ^ places = 10 * 10 ^ (places - 1) := by
      rw [← pow_succ', Nat.sub_add_cancel (by omega)]
    have hlt : c < 10 ^ places := by omega
    rw [roundHalfEven, Nat.div_eq_of_lt hlt, Nat.mod_eq_of_lt hlt, if_pos (by omega)]
  · rfl

/-! ## The rounding step -/

/-- A rounded coefficient, checked against the largest exponent and brought to length. -/
def finish (p : Precision) (negative : Bool) (kept : Nat) (exponent : Int) :
    Except ArithmeticFault Decimal :=
  if maxExponent < adjusted kept exponent then .error .overflow
  else if p.digits < digitCount kept then .ok (.finite negative (kept / 10) (exponent + 1))
  else .ok (.finite negative kept exponent)

theorem round_eq_finish {p : Precision} {n : Bool} {c : Nat} {e : Int} (hc : c ≠ 0) :
    round p n c e =
      finish p n (roundHalfEven c (10 ^ excess p c e)) (e + (excess p c e : Nat)) := by
  have hkept : (if excess p c e = 0 then c else dropDigits c (excess p c e)) =
      roundHalfEven c (10 ^ excess p c e) := by
    split
    · next h => rw [h, pow_zero, roundHalfEven_one]
    · exact dropDigits_eq ..
  simp only [round, if_neg hc, hkept, finish]

theorem round_zero (p : Precision) (n : Bool) (e : Int) :
    (round p n 0 e).map toRat = .ok 0 := by
  simp [round, Except.map]

theorem adjusted_shift {c : Nat} (hc : c ≠ 0) (k : Nat) (e : Int) :
    adjusted (c * 10 ^ k) (e - k) = adjusted c e := by
  rw [adjusted, adjusted, digitCount_mul_pow hc]
  omega

/-- A coefficient with room for more zeros is brought to length as it is. -/
theorem finish_shift {p : Precision} {n : Bool} {c k : Nat} {e : Int} (hc : c ≠ 0)
    (hk : digitCount c + k ≤ p.digits) :
    (finish p n (c * 10 ^ k) (e - k)).map toRat = (finish p n c e).map toRat := by
  have hlong : ¬ p.digits < digitCount (c * 10 ^ k) := by
    rw [digitCount_mul_pow hc]
    omega
  have hshort : ¬ p.digits < digitCount c := by omega
  unfold finish
  rw [adjusted_shift hc, if_neg hlong, if_neg hshort]
  split
  · rfl
  · simp only [Except.map, toRat_shift]

/-- **The rounded number does not change when zeros are appended.** -/
theorem round_shift (p : Precision) (n : Bool) (c k : Nat) (e : Int) :
    (round p n (c * 10 ^ k) (e - k)).map toRat = (round p n c e).map toRat := by
  by_cases hc : c = 0
  · rw [hc, zero_mul, round_zero, round_zero]
  have hc' : c * 10 ^ k ≠ 0 := Nat.mul_ne_zero hc (by positivity)
  rw [round_eq_finish hc, round_eq_finish hc']
  have hraw : (digitCount (c * 10 ^ k) : Int) = digitCount c + k := by
    rw [digitCount_mul_pow hc, Nat.cast_add]
  by_cases hcut : 0 ≤ max ((digitCount c : Int) - p.digits) (leastExponent p - e)
  · -- The coefficient is cut anyway: the zeros are cut along with it.
    have hplaces : excess p (c * 10 ^ k) (e - k) = excess p c e + k := by
      rw [excess, excess, hraw]
      omega
    rw [hplaces, pow_add, roundHalfEven_mul _ _ (by positivity)]
    congr 2
    push_cast
    ring
  · -- There is room for some of the zeros, and the others are cut.
    have hplaces : excess p c e = 0 := by
      rw [excess]
      omega
    obtain ⟨m, hm, hroom⟩ : ∃ m, k = m + excess p (c * 10 ^ k) (e - k) ∧
        digitCount c + m ≤ p.digits := by
      refine ⟨k - excess p (c * 10 ^ k) (e - k), ?_, ?_⟩ <;> rw [excess, hraw] <;> omega
    generalize excess p (c * 10 ^ k) (e - k) = j at hm
    subst hm
    rw [hplaces, pow_zero, roundHalfEven_one, pow_add, ← mul_assoc,
      roundHalfEven_mul_self _ (by positivity), ← finish_shift hc hroom]
    congr 2
    push_cast
    ring

/-! ## Numbers that need no rounding -/

/-- The decimals that a numeral can denote. -/
def InRange (x : Decimal) : Prop :=
  ∃ n c e, x = .finite n c e ∧ Numeral.minExponent ≤ e ∧ adjusted c e ≤ Numeral.maxAdjusted

/-- A decimal whose number needs no rounding at a precision: it can be written with no more digits
than the precision allows, at an exponent that results may have. -/
structure Fits (p : Precision) (x : Decimal) : Prop where
  inRange : x.InRange
  short : ∃ n c e, c < 10 ^ p.digits ∧ leastExponent p ≤ e ∧ adjusted c e ≤ maxExponent ∧
    (finite n c e).toRat = x.toRat

theorem InRange.isFinite {x : Decimal} (h : x.InRange) : x.IsFinite := by
  obtain ⟨n, c, e, rfl, -⟩ := h
  exact isFinite_finite n c e

theorem Fits.isFinite {p : Precision} {x : Decimal} (h : x.Fits p) : x.IsFinite :=
  h.inRange.isFinite

/-- Whether a number fits depends on the number alone. -/
theorem Fits.congr {p : Precision} {x y : Decimal} (hx : x.Fits p) (hy : y.InRange)
    (h : x.toRat = y.toRat) : y.Fits p := by
  obtain ⟨-, n, c, e, hc, he, ha, heq⟩ := hx
  exact ⟨hy, n, c, e, hc, he, ha, heq.trans h⟩

theorem leastExponent_bounds (p : Precision) :
    Numeral.minExponent ≤ leastExponent p ∧ leastExponent p ≤ minExponent := by
  have h₁ := p.positive
  have h₂ := p.bounded
  simp only [maxPrecision] at h₂
  simp only [leastExponent, Numeral.minExponent, minExponent]
  omega

/-- A short coefficient at a permitted exponent is in range and fits. -/
theorem fits_of_short {p : Precision} (n : Bool) {c : Nat} {e : Int} (hc : c < 10 ^ p.digits)
    (he : leastExponent p ≤ e) (ha : adjusted c e ≤ maxExponent) : (finite n c e).Fits p := by
  have hleast := (leastExponent_bounds p).1
  refine ⟨⟨n, c, e, rfl, by omega, ?_⟩, ⟨n, c, e, hc, he, ha, rfl⟩⟩
  simp only [Numeral.maxAdjusted, maxExponent] at ha ⊢
  omega

/-- A short coefficient at a permitted exponent comes out as it went in. -/
theorem round_of_short {p : Precision} (n : Bool) {c : Nat} {e : Int} (hc : c < 10 ^ p.digits)
    (he : leastExponent p ≤ e) (ha : adjusted c e ≤ maxExponent) :
    (round p n c e).map toRat = .ok (finite n c e).toRat := by
  by_cases h0 : c = 0
  · rw [h0, round_zero, toRat_zero]
  have hdigits : digitCount c ≤ p.digits := (digitCount_le_iff c _ p.positive).2 hc
  have hplaces : excess p c e = 0 := by
    rw [excess]
    omega
  rw [round_eq_finish h0, hplaces, pow_zero, roundHalfEven_one, finish, if_neg (by simpa using ha),
    if_neg (by omega)]
  simp [Except.map]

theorem excess_bounds (p : Precision) (c : Nat) (e : Int) :
    (digitCount c : Int) - p.digits ≤ excess p c e ∧ leastExponent p - e ≤ excess p c e := by
  rw [excess]
  omega

/-- A coefficient is cut to the precision, or to the number just above. -/
theorem roundHalfEven_excess_le (p : Precision) (c : Nat) (e : Int) :
    roundHalfEven c (10 ^ excess p c e) ≤ 10 ^ p.digits := by
  have hdigits : digitCount c ≤ p.digits + excess p c e := by
    have := (excess_bounds p c e).1
    omega
  have hlt : c < 10 ^ p.digits * 10 ^ excess p c e := by
    rw [← pow_add]
    exact Nat.lt_of_lt_of_le (lt_pow_digitCount c) (Nat.pow_le_pow_right (by decide) hdigits)
  have hdiv : c / 10 ^ excess p c e < 10 ^ p.digits :=
    (Nat.div_lt_iff_lt_mul (by positivity)).2 hlt
  have := roundHalfEven_le c (10 ^ excess p c e)
  omega

theorem digitCount_zero : digitCount 0 = 1 := by
  simp [digitCount, digitEstimate]

theorem digitCount_pow (k : Nat) : digitCount (10 ^ k) = k + 1 :=
  digitCount_eq_succ (Nat.le_refl _) (Nat.pow_lt_pow_right (by decide) (Nat.lt_succ_self k))

/-- A decimal as the rounding step leaves it: no more digits than the precision allows, at an
exponent that results may have. -/
def Rounded (p : Precision) (x : Decimal) : Prop :=
  ∃ n c e, x = .finite n c e ∧ c < 10 ^ p.digits ∧ leastExponent p ≤ e ∧ adjusted c e ≤ maxExponent

theorem Rounded.fits {p : Precision} {x : Decimal} (h : x.Rounded p) : x.Fits p := by
  obtain ⟨n, c, e, rfl, hc, he, ha⟩ := h
  exact fits_of_short n hc he ha

theorem rounded_zero {p : Precision} (n : Bool) {e : Int} (he : leastExponent p ≤ e)
    (hmax : e ≤ maxExponent) : (finite n 0 e).Rounded p := by
  refine ⟨n, 0, e, rfl, by positivity, he, ?_⟩
  rw [adjusted, digitCount_zero]
  omega

theorem leastExponent_le_maxExponent (p : Precision) : leastExponent p ≤ maxExponent :=
  (leastExponent_bounds p).2.trans (by decide)

/-- **Rounding leaves no more digits than the precision allows**, also where it carries into one
digit more. -/
theorem rounded_round {p : Precision} {n : Bool} {c : Nat} {e : Int} {x : Decimal}
    (h : round p n c e = .ok x) : x.Rounded p := by
  by_cases hc : c = 0
  · have hleast := leastExponent_le_maxExponent p
    rw [round, if_pos hc] at h
    cases h
    exact rounded_zero n (by omega) (by omega)
  · rw [round_eq_finish hc] at h
    have hexp := (excess_bounds p c e).2
    have hkept := roundHalfEven_excess_le p c e
    generalize roundHalfEven c (10 ^ excess p c e) = kept at h hkept
    generalize excess p c e = places at h hexp
    unfold finish at h
    split at h
    · cases h
    · next hmax =>
      split at h
      · next hlong =>
        -- Only the power of ten itself is one digit too long.
        have hpow : kept = 10 ^ p.digits := by
          by_contra hne
          have := (digitCount_le_iff kept _ p.positive).2 (by omega)
          omega
        obtain ⟨d, hd⟩ : ∃ d, p.digits = d + 1 := ⟨p.digits - 1, by have := p.positive; omega⟩
        have hten : kept / 10 = 10 ^ d := by
          rw [hpow, hd, pow_succ, Nat.mul_div_cancel _ (by decide)]
        cases h
        rw [hten]
        refine ⟨n, 10 ^ d, _, rfl, ?_, by omega, ?_⟩
        · rw [hd]
          exact Nat.pow_lt_pow_right (by decide) (Nat.lt_succ_self d)
        · rw [hpow, adjusted, digitCount_pow, hd] at hmax
          rw [adjusted, digitCount_pow]
          omega
      · next hshort =>
        cases h
        refine ⟨n, kept, _, rfl, ?_, by omega, by omega⟩
        exact (digitCount_le_iff kept _ p.positive).1 (by omega)

/-- **Rounded numbers need no more rounding.** -/
theorem round_fits {p : Precision} {n : Bool} {c : Nat} {e : Int} {x : Decimal}
    (h : round p n c e = .ok x) : x.Fits p :=
  (rounded_round h).fits

/-- Rounding a number that fits changes nothing. -/
theorem round_of_fits {p : Precision} {n : Bool} {c : Nat} {e : Int} (h : (finite n c e).Fits p) :
    (round p n c e).map toRat = .ok (finite n c e).toRat := by
  obtain ⟨-, n', c', e', hc, he, ha, heq⟩ := h
  rw [← heq, ← round_of_short n' hc he ha]
  refine congr_of_toRat_eq (fun n c e => (round p n c e).map toRat) ?_ ?_ heq.symm
  · intro n e n' e'
    rw [round_zero, round_zero]
  · intro n c e k _
    exact round_shift p n c k e

/-! ## Operations that round once -/

theorem not_isFinite_infinite (n : Bool) : ¬ (infinite n).IsFinite := by
  rintro ⟨m, c, e, h⟩
  cases h

/-- An undefined operand leaves no finite result. -/
theorem not_isFinite_of_propagate₂? {p : Precision} {x y z : Decimal}
    {r : Except ArithmeticFault Decimal} (hr : propagate₂? p x y = some r) (h : r = .ok z) :
    ¬ z.IsFinite := by
  have hpropagate : ∀ n s d, propagate p n s d = .ok z → ¬ z.IsFinite := by
    rintro n s d hz ⟨m, c, e, rfl⟩
    rw [propagate] at hz
    split at hz <;> cases hz
  subst h
  unfold propagate₂? at hr
  split at hr
  · exact hpropagate _ _ _ (Option.some.inj hr)
  · exact hpropagate _ _ _ (Option.some.inj hr)
  · exact hpropagate _ _ _ (Option.some.inj hr)
  · cases hr

/-- Results that denote the same numbers agree. -/
theorem agree_of_map_toRat {a b : Except ArithmeticFault Decimal}
    (h : a.map toRat = b.map toRat) (ha : ∀ x, a = .ok x → x.IsFinite)
    (hb : ∀ x, b = .ok x → x.IsFinite) : Agree Eq Same a b := by
  cases a with
  | error f =>
    cases b with
    | error g => exact .error (by simpa [Except.map] using h)
    | ok y => simp [Except.map] at h
  | ok x =>
    cases b with
    | error g => simp [Except.map] at h
    | ok y => exact .ok ⟨ha x rfl, hb y rfl, by simpa [Except.map] using h⟩

theorem mul_finite (p : Precision) (n₁ : Bool) (c₁ : Nat) (e₁ : Int) (n₂ : Bool) (c₂ : Nat)
    (e₂ : Int) :
    (finite n₁ c₁ e₁).mul p (finite n₂ c₂ e₂) = round p (n₁ != n₂) (c₁ * c₂) (e₁ + e₂) := rfl

theorem mul_fits {p : Precision} {x y z : Decimal} (hx : x.IsFinite) (hy : y.IsFinite)
    (h : x.mul p y = .ok z) : z.Fits p := by
  obtain ⟨n₁, c₁, e₁, rfl⟩ := hx
  obtain ⟨n₂, c₂, e₂, rfl⟩ := hy
  exact round_fits (mul_finite p n₁ c₁ e₁ n₂ c₂ e₂ ▸ h)

/-- Finite products are rounded. -/
theorem rounded_mul {p : Precision} {x y z : Decimal} (h : x.mul p y = .ok z) (hz : z.IsFinite) :
    z.Rounded p := by
  unfold mul at h
  split at h
  · next r hr => exact absurd hz (not_isFinite_of_propagate₂? hr h)
  · split at h
    · exact rounded_round h
    · cases h
      exact absurd hz (not_isFinite_infinite _)
    · split at h
      · cases h
      · cases h
        exact absurd hz (not_isFinite_infinite _)
    · split at h
      · cases h
      · cases h
        exact absurd hz (not_isFinite_infinite _)
    · cases h

/-- Products depend on the numbers alone. -/
theorem mul_congr (p : Precision) {x x' y y' : Decimal} (hx : Same x x') (hy : Same y y') :
    Agree Eq Same (x.mul p y) (x'.mul p y') := by
  refine agree_of_map_toRat ?_ (fun z h => (mul_fits hx.left hy.left h).isFinite)
    (fun z h => (mul_fits hx.right hy.right h).isFinite)
  obtain ⟨⟨n₁, c₁, e₁, rfl⟩, ⟨n₁', c₁', e₁', rfl⟩, hx⟩ := hx
  obtain ⟨⟨n₂, c₂, e₂, rfl⟩, ⟨n₂', c₂', e₂', rfl⟩, hy⟩ := hy
  simp only [mul_finite]
  calc (round p (n₁ != n₂) (c₁ * c₂) (e₁ + e₂)).map toRat
      = (round p (n₁' != n₂) (c₁' * c₂) (e₁' + e₂)).map toRat := by
        refine congr_of_toRat_eq
          (fun n c e => (round p (n != n₂) (c * c₂) (e + e₂)).map toRat) ?_ ?_ hx
        · intro n e n' e'
          simp only [zero_mul, round_zero]
        · intro n c e k _
          rw [← round_shift p (n != n₂) (c * c₂) k (e + e₂), mul_right_comm,
            show e - (k : Int) + e₂ = e + e₂ - k by ring]
    _ = (round p (n₁' != n₂') (c₁' * c₂') (e₁' + e₂')).map toRat := by
        refine congr_of_toRat_eq
          (fun n c e => (round p (n₁' != n) (c₁' * c) (e₁' + e)).map toRat) ?_ ?_ hy
        · intro n e n' e'
          simp only [mul_zero, round_zero]
        · intro n c e k _
          rw [← round_shift p (n₁' != n) (c₁' * c) k (e₁' + e), mul_assoc,
            show e₁' + (e - (k : Int)) = e₁' + e - k by ring]

theorem neg_fits {p : Precision} {x z : Decimal} (hx : x.IsFinite) (h : x.neg p = .ok z) :
    z.Fits p := by
  obtain ⟨n, c, e, rfl⟩ := hx
  exact round_fits h

/-- Negations depend on the number alone. -/
theorem neg_congr (p : Precision) {x x' : Decimal} (hx : Same x x') :
    Agree Eq Same (x.neg p) (x'.neg p) := by
  refine agree_of_map_toRat ?_ (fun z h => (neg_fits hx.left h).isFinite)
    (fun z h => (neg_fits hx.right h).isFinite)
  obtain ⟨⟨n, c, e, rfl⟩, ⟨n', c', e', rfl⟩, hx⟩ := hx
  refine congr_of_toRat_eq (fun n c e => (round p (c != 0 && !n) c e).map toRat) ?_ ?_ hx
  · intro n e n' e'
    rw [round_zero, round_zero]
  · intro n c e k hc
    have hc' : c * 10 ^ k ≠ 0 := Nat.mul_ne_zero hc (by positivity)
    rw [bne_iff_ne.2 hc, bne_iff_ne.2 hc', round_shift]

/-- Whether a number fits does not depend on its sign. -/
theorem Fits.not {p : Precision} {n : Bool} {c : Nat} {e : Int} (h : (finite n c e).Fits p) :
    (finite (!n) c e).Fits p := by
  obtain ⟨⟨n₀, c₀, e₀, heq, hlo, hhi⟩, n', c', e', h₁, h₂, h₃, h₄⟩ := h
  cases heq
  refine ⟨⟨!n, c, e, rfl, hlo, hhi⟩, !n', c', e', h₁, h₂, h₃, ?_⟩
  rw [toRat_not, toRat_not, h₄]

/-- The negation of a number that fits is exact. -/
theorem neg_of_fits {p : Precision} {x : Decimal} (h : x.Fits p) :
    (x.neg p).map toRat = .ok (-x.toRat) := by
  obtain ⟨n, c, e, rfl⟩ := h.isFinite
  rcases Nat.eq_zero_or_pos c with rfl | hc
  · simp only [neg, round_zero, toRat_zero, neg_zero]
  · have hsign : (c != 0 && !n) = !n := by
      rw [bne_iff_ne.2 (Nat.pos_iff_ne_zero.1 hc), Bool.true_and]
    rw [neg, hsign, round_of_fits h.not, toRat_not]

end Decimal

end BusinessRules

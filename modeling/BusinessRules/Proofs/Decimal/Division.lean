import BusinessRules.Proofs.Decimal.Addition

/-!
# Quotients depend on the numbers alone

A quotient is carried to a fixed number of digits, counted from the leading digits of both
operands.  Appending zeros to one of them moves the place to which it is carried by as many digits,
so the very same digits come out.

## Main statements

* `divFinite_eq`: a quotient is the carried one, rounded
* `dvd_mul_pow_of_lt`: whether a division ends is told by the first digits that it could end at
* `rounded_div`: finite quotients are rounded, whatever the operands are
* `div_congr`: quotients depend on the numbers alone
-/

namespace BusinessRules.Decimal

/- Powers are the plain ones of the natural numbers and the integers. -/
attribute [local instance (2000)] instPowNat

/-- The quotient of two coefficients as the rounding sees it: exact, or kept off the halves. -/
def carried (num den : Nat) : Nat :=
  if num % den = 0 then num / den
  else if num / den % 5 = 0 then num / den + 1 else num / den

theorem carried_mul (num den : Nat) {k : Nat} (hk : 0 < k) :
    carried (num * k) (den * k) = carried num den := by
  have hmod : num % den * k = 0 ↔ num % den = 0 := by
    rw [Nat.mul_eq_zero]
    omega
  simp only [carried, Nat.mul_div_mul_right _ _ hk, Nat.mul_mod_mul_right, hmod]

/-- Removing trailing zeros does not change the rounded number. -/
theorem round_stripZeros (p : Precision) (n : Bool) (most c : Nat) (e : Int) :
    (round p n (stripZeros most c).1 (e + (stripZeros most c).2)).map toRat =
      (round p n c e).map toRat := by
  have hc := (stripZeros_mul most c).1
  generalize stripZeros most c = r at hc
  rw [← round_shift p n r.1 r.2 (e + r.2), hc, add_sub_cancel_right]

/-- **A quotient is the carried one, rounded.** -/
theorem divFinite_eq (p : Precision) (n : Bool) (c₁ : Nat) (e₁ : Int) (c₂ : Nat) (e₂ : Int)
    {shift : Int} (hs : shift = (digitCount c₂ : Int) - digitCount c₁ + p.digits + 1) :
    (divFinite p n c₁ e₁ c₂ e₂).map toRat =
      (round p n (carried (c₁ * 10 ^ shift.toNat) (c₂ * 10 ^ (-shift).toNat))
        (e₁ - e₂ - shift)).map toRat := by
  subst hs
  unfold divFinite carried
  simp only
  split
  · exact round_stripZeros ..
  · rfl

/-- Appended zeros of the dividend are carried along. -/
theorem divFinite_shift_left (p : Precision) (n : Bool) {c₁ : Nat} (hc : c₁ ≠ 0) (k : Nat)
    (e₁ : Int) (c₂ : Nat) (e₂ : Int) :
    (divFinite p n (c₁ * 10 ^ k) (e₁ - k) c₂ e₂).map toRat =
      (divFinite p n c₁ e₁ c₂ e₂).map toRat := by
  obtain ⟨s, hs⟩ : ∃ s, s = (digitCount c₂ : Int) - digitCount c₁ + p.digits + 1 := ⟨_, rfl⟩
  have hs' : s - k = (digitCount c₂ : Int) - digitCount (c₁ * 10 ^ k) + p.digits + 1 := by
    rw [digitCount_mul_pow hc]
    push_cast
    omega
  obtain ⟨j, hnum, hden⟩ : ∃ j : Nat, k + (s - k).toNat = s.toNat + j ∧
      (-(s - k)).toNat = (-s).toNat + j := ⟨(-(s - k)).toNat - (-s).toNat, by omega, by omega⟩
  rw [divFinite_eq p n _ _ _ _ hs', divFinite_eq p n _ _ _ _ hs, mul_assoc, ← pow_add, hnum, hden,
    pow_add, pow_add, ← mul_assoc, ← mul_assoc, carried_mul _ _ (by positivity),
    show e₁ - (k : Int) - e₂ - (s - k) = e₁ - e₂ - s by ring]

/-- Appended zeros of the divisor are carried along. -/
theorem divFinite_shift_right (p : Precision) (n : Bool) (c₁ : Nat) (e₁ : Int) {c₂ : Nat}
    (hc : c₂ ≠ 0) (k : Nat) (e₂ : Int) :
    (divFinite p n c₁ e₁ (c₂ * 10 ^ k) (e₂ - k)).map toRat =
      (divFinite p n c₁ e₁ c₂ e₂).map toRat := by
  obtain ⟨s, hs⟩ : ∃ s, s = (digitCount c₂ : Int) - digitCount c₁ + p.digits + 1 := ⟨_, rfl⟩
  have hs' : s + k = (digitCount (c₂ * 10 ^ k) : Int) - digitCount c₁ + p.digits + 1 := by
    rw [digitCount_mul_pow hc]
    push_cast
    omega
  obtain ⟨j, hnum, hden⟩ : ∃ j : Nat, (s + k).toNat = s.toNat + j ∧
      k + (-(s + k)).toNat = (-s).toNat + j := ⟨(s + k).toNat - s.toNat, by omega, by omega⟩
  rw [divFinite_eq p n _ _ _ _ hs', divFinite_eq p n _ _ _ _ hs, mul_assoc c₂, ← pow_add, hnum,
    hden,
    pow_add, pow_add, ← mul_assoc, ← mul_assoc, carried_mul _ _ (by positivity),
    show e₁ - (e₂ - (k : Int)) - (s + k) = e₁ - e₂ - s by ring]

/-! ## Divisions that end -/

/-- **A division that ends at all ends early**: if a divisor divides a number with zeros appended,
as many zeros as the divisor has binary digits are enough. -/
theorem dvd_mul_pow_of_lt {a c k s : Nat} (hc : c ≠ 0) (h : c ∣ a * 10 ^ k) (hs : c < 2 ^ s) :
    c ∣ a * 10 ^ s := by
  have hg : 0 < Nat.gcd c a := Nat.gcd_pos_of_pos_left a (Nat.pos_of_ne_zero hc)
  obtain ⟨d, hd⟩ := Nat.gcd_dvd_left c a
  obtain ⟨b, hb⟩ := Nat.gcd_dvd_right c a
  generalize hgcd : Nat.gcd c a = g at hg hd hb
  subst hd hb
  have hcop : Nat.Coprime d b := by
    rw [Nat.gcd_mul_left] at hgcd
    exact Nat.eq_of_mul_eq_mul_left hg (by rw [hgcd, mul_one])
  have hpow : d ∣ 2 ^ k * 5 ^ k := by
    rw [← mul_pow]
    rw [mul_assoc] at h
    exact hcop.dvd_of_dvd_mul_left (Nat.dvd_of_mul_dvd_mul_left hg h)
  -- What is left of the divisor has no prime factors but two and five.
  obtain ⟨x, y, hx, hy, rfl⟩ := Nat.dvd_mul.1 hpow
  obtain ⟨i, -, rfl⟩ := (Nat.dvd_prime_pow Nat.prime_two).1 hx
  obtain ⟨j, -, rfl⟩ := (Nat.dvd_prime_pow Nat.prime_five).1 hy
  have hi : 2 ^ i < 2 ^ s :=
    calc 2 ^ i ≤ 2 ^ i * 5 ^ j := Nat.le_mul_of_pos_right _ (by positivity)
      _ ≤ g * (2 ^ i * 5 ^ j) := Nat.le_mul_of_pos_left _ hg
      _ < 2 ^ s := hs
  have hj : 2 ^ j < 2 ^ s :=
    calc 2 ^ j ≤ 5 ^ j := Nat.pow_le_pow_left (by decide) j
      _ ≤ 2 ^ i * 5 ^ j := Nat.le_mul_of_pos_left _ (by positivity)
      _ ≤ g * (2 ^ i * 5 ^ j) := Nat.le_mul_of_pos_left _ hg
      _ < 2 ^ s := hs
  have hi' : i ≤ s := ((Nat.pow_lt_pow_iff_right (by decide)).1 hi).le
  have hj' : j ≤ s := ((Nat.pow_lt_pow_iff_right (by decide)).1 hj).le
  rw [mul_assoc, show (10 : Nat) = 2 * 5 by norm_num, mul_pow]
  exact Nat.mul_dvd_mul_left g
    (dvd_mul_of_dvd_right (Nat.mul_dvd_mul (pow_dvd_pow 2 hi') (pow_dvd_pow 5 hj')) b)

theorem lt_two_pow_shift (c : Nat) : c < 2 ^ (5 * digitCount c + 1) :=
  calc c < 10 ^ digitCount c := lt_pow_digitCount c
    _ ≤ (2 ^ 4) ^ digitCount c := Nat.pow_le_pow_left (by decide) _
    _ = 2 ^ (4 * digitCount c) := (pow_mul ..).symm
    _ ≤ 2 ^ (5 * digitCount c + 1) := Nat.pow_le_pow_right (by decide) (by omega)

/-- Whether a division ends, tested with any number of zeros that is large enough. -/
theorem dvd_mul_pow_iff {a c k : Nat} (hc : c ≠ 0) (hk : 5 * digitCount c + 1 ≤ k) :
    c ∣ a * 10 ^ k ↔ c ∣ a * 10 ^ (5 * digitCount c + 1) :=
  ⟨fun h => dvd_mul_pow_of_lt hc h (lt_two_pow_shift c),
    fun h => h.trans (Nat.mul_dvd_mul_left a (pow_dvd_pow 10 hk))⟩

/-- A quotient that ends, rounded; it has a result only if its leading digit is in range. -/
def ended (p : Precision) (n : Bool) (q : Nat) (e : Int) : Except ArithmeticFault Decimal :=
  if minExponent ≤ adjusted q e && adjusted q e ≤ maxExponent then round p n q e
  else .error .tooLong

theorem ended_shift (p : Precision) (n : Bool) {q : Nat} (hq : q ≠ 0) (k : Nat) (e : Int) :
    (ended p n (q * 10 ^ k) (e - k)).map toRat = (ended p n q e).map toRat := by
  unfold ended
  rw [adjusted_shift hq]
  split
  · exact round_shift p n q k e
  · rfl

theorem quotient_ne_zero {c₁ c₂ s : Nat} (h₁ : c₁ ≠ 0) (h₂ : c₂ ≠ 0) (h : c₂ ∣ c₁ * 10 ^ s) :
    c₁ * 10 ^ s / c₂ ≠ 0 := by
  have hpos : 0 < c₁ * 10 ^ s := Nat.mul_pos (Nat.pos_of_ne_zero h₁) (by positivity)
  exact (Nat.div_pos (Nat.le_of_dvd hpos h) (Nat.pos_of_ne_zero h₂)).ne'

/-- A quotient at a precision to which none can be carried: the ended one, if the division ends. -/
theorem divExact_eq (p : Precision) (n : Bool) {c₁ c₂ : Nat} (h₁ : c₁ ≠ 0) (h₂ : c₂ ≠ 0)
    (e₁ e₂ : Int) {s : Nat} (hs : s = 5 * digitCount c₂ + 1) :
    (divExact p n c₁ e₁ c₂ e₂).map toRat =
      if c₂ ∣ c₁ * 10 ^ s then (ended p n (c₁ * 10 ^ s / c₂) (e₁ - e₂ - s)).map toRat
      else .error .tooLong := by
  subst hs
  have hdvd := Nat.dvd_iff_mod_eq_zero (m := c₂) (n := c₁ * 10 ^ (5 * digitCount c₂ + 1))
  unfold divExact
  simp only [ne_eq, ite_not]
  by_cases h : c₂ ∣ c₁ * 10 ^ (5 * digitCount c₂ + 1)
  · rw [if_pos h, if_pos (hdvd.1 h)]
    have hq := quotient_ne_zero h₁ h₂ h
    generalize c₁ * 10 ^ (5 * digitCount c₂ + 1) / c₂ = q at hq
    generalize 5 * digitCount c₂ + 1 = s
    have hstrip := (stripZeros_mul s q).1
    generalize stripZeros s q = r at hstrip
    subst hstrip
    have hr : r.1 ≠ 0 := fun h0 => hq (by rw [h0, zero_mul])
    have hended := ended_shift p n hr r.2 (e₁ - e₂ - s + r.2)
    rw [add_sub_cancel_right] at hended
    exact hended.symm
  · rw [if_neg h, if_neg (fun h0 => h (hdvd.2 h0))]
    rfl

theorem divExact_shift_left (p : Precision) (n : Bool) {c₁ c₂ : Nat} (h₁ : c₁ ≠ 0) (h₂ : c₂ ≠ 0)
    (k : Nat) (e₁ e₂ : Int) :
    (divExact p n (c₁ * 10 ^ k) (e₁ - k) c₂ e₂).map toRat =
      (divExact p n c₁ e₁ c₂ e₂).map toRat := by
  have h₁' : c₁ * 10 ^ k ≠ 0 := Nat.mul_ne_zero h₁ (by positivity)
  rw [divExact_eq p n h₁' h₂ _ _ rfl, divExact_eq p n h₁ h₂ _ _ rfl]
  generalize hs : 5 * digitCount c₂ + 1 = s
  have hcomm : c₁ * 10 ^ k * 10 ^ s = c₁ * 10 ^ s * 10 ^ k := mul_right_comm ..
  have hiff : c₂ ∣ c₁ * 10 ^ k * 10 ^ s ↔ c₂ ∣ c₁ * 10 ^ s := by
    rw [hcomm, mul_assoc, ← pow_add, ← hs]
    exact dvd_mul_pow_iff h₂ (by omega)
  by_cases h : c₂ ∣ c₁ * 10 ^ s
  · have hq := quotient_ne_zero h₁ h₂ h
    rw [if_pos h, if_pos (hiff.2 h), hcomm, Nat.mul_div_right_comm h, ← ended_shift p n hq k]
    congr 2
    ring
  · rw [if_neg h, if_neg (fun h' => h (hiff.1 h'))]

theorem divExact_shift_right (p : Precision) (n : Bool) {c₁ c₂ : Nat} (h₁ : c₁ ≠ 0) (h₂ : c₂ ≠ 0)
    (k : Nat) (e₁ e₂ : Int) :
    (divExact p n c₁ e₁ (c₂ * 10 ^ k) (e₂ - k)).map toRat =
      (divExact p n c₁ e₁ c₂ e₂).map toRat := by
  have h₂' : c₂ * 10 ^ k ≠ 0 := Nat.mul_ne_zero h₂ (by positivity)
  obtain ⟨s, hs⟩ : ∃ s, s = 5 * digitCount c₂ + 1 := ⟨_, rfl⟩
  have hs' : s + 4 * k + k = 5 * digitCount (c₂ * 10 ^ k) + 1 := by
    rw [digitCount_mul_pow h₂]
    omega
  rw [divExact_eq p n h₁ h₂' _ _ hs', divExact_eq p n h₁ h₂ _ _ hs]
  have hpow : c₁ * 10 ^ (s + 4 * k + k) = c₁ * 10 ^ (s + 4 * k) * 10 ^ k := by
    rw [pow_add 10 (s + 4 * k) k, mul_assoc]
  have hkpos : 0 < 10 ^ k := by positivity
  -- A divisor with more zeros is given more room than the division needs, which adds zeros only.
  have hiff : c₂ * 10 ^ k ∣ c₁ * 10 ^ (s + 4 * k + k) ↔ c₂ ∣ c₁ * 10 ^ s := by
    rw [hpow, Nat.mul_dvd_mul_iff_right hkpos, hs]
    exact dvd_mul_pow_iff h₂ (by omega)
  by_cases h : c₂ ∣ c₁ * 10 ^ s
  · have hq := quotient_ne_zero h₁ h₂ h
    rw [if_pos h, if_pos (hiff.2 h), hpow, Nat.mul_div_mul_right _ _ hkpos, pow_add, ← mul_assoc,
      Nat.mul_div_right_comm h, ← ended_shift p n hq (4 * k)]
    congr 2
    push_cast
    ring
  · rw [if_neg h, if_neg (fun h' => h (hiff.1 h'))]

/-! ## Quotients -/

theorem div_finite (p : Precision) (n₁ : Bool) (c₁ : Nat) (e₁ : Int) (n₂ : Bool) (c₂ : Nat)
    (e₂ : Int) :
    (finite n₁ c₁ e₁).div p (finite n₂ c₂ e₂) =
      if c₂ = 0 then .error .invalidOperation
      else if c₁ = 0 then round p (n₁ != n₂) 0 (e₁ - e₂)
      else if maxQuotientDigits < p.digits then divExact p (n₁ != n₂) c₁ e₁ c₂ e₂
      else divFinite p (n₁ != n₂) c₁ e₁ c₂ e₂ := rfl

theorem rounded_divFinite {p : Precision} {n : Bool} {c₁ c₂ : Nat} {e₁ e₂ : Int} {z : Decimal}
    (h : divFinite p n c₁ e₁ c₂ e₂ = .ok z) : z.Rounded p := by
  unfold divFinite at h
  simp only at h
  split at h <;> exact rounded_round h

theorem rounded_divExact {p : Precision} {n : Bool} {c₁ c₂ : Nat} {e₁ e₂ : Int} {z : Decimal}
    (h : divExact p n c₁ e₁ c₂ e₂ = .ok z) : z.Rounded p := by
  unfold divExact at h
  simp only at h
  split at h
  · cases h
  · split at h
    · exact rounded_round h
    · cases h

/-- Finite quotients are rounded, among them zero, the quotient by an infinite number. -/
theorem rounded_div {p : Precision} {x y z : Decimal} (h : x.div p y = .ok z) (hz : z.IsFinite) :
    z.Rounded p := by
  unfold div at h
  split at h
  · next r hr => exact absurd hz (not_isFinite_of_propagate₂? hr h)
  · split at h
    · split at h
      · cases h
      · split at h
        · exact rounded_round h
        · split at h
          · exact rounded_divExact h
          · exact rounded_divFinite h
    · cases h
      exact absurd hz (not_isFinite_infinite _)
    · cases h
      exact rounded_zero _ le_rfl (leastExponent_le_maxExponent p)
    · cases h

theorem div_fits {p : Precision} {x y z : Decimal} (hx : x.IsFinite) (hy : y.IsFinite)
    (h : x.div p y = .ok z) : z.Fits p := by
  obtain ⟨n₁, c₁, e₁, rfl⟩ := hx
  obtain ⟨n₂, c₂, e₂, rfl⟩ := hy
  rw [div_finite] at h
  split at h
  · cases h
  · split at h
    · exact round_fits h
    · split at h
      · exact (rounded_divExact h).fits
      · exact (rounded_divFinite h).fits

theorem div_congr (p : Precision) {x x' y y' : Decimal} (hx : Same x x') (hy : Same y y') :
    Agree Eq Same (x.div p y) (x'.div p y') := by
  refine agree_of_map_toRat ?_ (fun z h => (div_fits hx.left hy.left h).isFinite)
    (fun z h => (div_fits hx.right hy.right h).isFinite)
  obtain ⟨⟨n₁, c₁, e₁, rfl⟩, ⟨n₁', c₁', e₁', rfl⟩, hx⟩ := hx
  obtain ⟨⟨n₂, c₂, e₂, rfl⟩, ⟨n₂', c₂', e₂', rfl⟩, hy⟩ := hy
  have hne : ∀ {c k : Nat}, c ≠ 0 → c * 10 ^ k ≠ 0 := fun hc => Nat.mul_ne_zero hc (by positivity)
  calc ((finite n₁ c₁ e₁).div p (finite n₂ c₂ e₂)).map toRat
      = ((finite n₁' c₁' e₁').div p (finite n₂ c₂ e₂)).map toRat := by
        refine congr_of_toRat_eq
          (fun n c e => ((finite n c e).div p (finite n₂ c₂ e₂)).map toRat) ?_ ?_ hx
        · intro n e n' e'
          simp only [div_finite, if_true]
          split
          · rfl
          · rw [round_zero, round_zero]
        · intro n c e k hc
          simp only [div_finite, if_neg hc, if_neg (hne hc)]
          split
          · rfl
          · next h₂ =>
            split
            · exact divExact_shift_left p (n != n₂) hc h₂ k e e₂
            · exact divFinite_shift_left p (n != n₂) hc k e c₂ e₂
    _ = ((finite n₁' c₁' e₁').div p (finite n₂' c₂' e₂')).map toRat := by
        refine congr_of_toRat_eq
          (fun n c e => ((finite n₁' c₁' e₁').div p (finite n c e)).map toRat) ?_ ?_ hy
        · intro n e n' e'
          simp only [div_finite, if_true]
        · intro n c e k hc
          simp only [div_finite, if_neg hc, if_neg (hne hc)]
          split
          · rw [round_zero, round_zero]
          · next h₁ =>
            split
            · exact divExact_shift_right p (n₁' != n) h₁ hc k e₁' e
            · exact divFinite_shift_right p (n₁' != n) c₁' e₁' hc k e

end BusinessRules.Decimal

import BusinessRules.Proofs.Decimal.Rounding

/-!
# Sums depend on the numbers alone

A sum is computed exactly and rounded once, except that a summand far below the last digit of the
other one is replaced by a single unit.  The replacement never shows: between two neighbouring
multiples of five units no power of ten and no half of a rounding step lies, so everything strictly
between them is rounded alike.

## Main statements

* `round_congr_of_between`: what lies between two neighbouring multiples of five is rounded alike
* `add_eq_round`: a sum is the exact sum of the numbers, rounded
* `rounded_add`: finite sums are rounded, whatever the operands are
* `add_congr`, `sub_congr`: sums and differences depend on the numbers alone
-/

namespace BusinessRules

/- Powers are the plain ones of the natural numbers and the integers. -/
attribute [local instance (2000)] instPowNat

/-- Off the halves, rounding is told by the number of whole halves. -/
theorem roundHalfEven_of_mod_ne_zero {c h : Nat} (hpos : 0 < h) (hr : c % h ≠ 0) :
    roundHalfEven c (h * 2) = (c / h + 1) / 2 := by
  have hlt : c % h < h := Nat.mod_lt _ hpos
  have hmod : c % (h * 2) = c % h + h * (c / h % 2) := Nat.mod_mul
  have hdiv : c / (h * 2) = c / h / 2 := (Nat.div_div_eq_div_mul ..).symm
  have hparity : c / h % 2 = 0 ∨ c / h % 2 = 1 := by omega
  unfold roundHalfEven
  rw [hdiv, hmod]
  rcases hparity with h0 | h1
  · rw [h0, mul_zero, add_zero]
    simp only
    rw [if_pos (by omega)]
    omega
  · rw [h1, mul_one]
    simp only
    rw [if_neg (by omega), if_pos (by omega)]
    omega

/-- Numbers strictly between two neighbours of a grid are rounded alike, if the halves are on the
grid. -/
theorem roundHalfEven_congr_of_grid {x y g t : Nat} (hpos : 0 < g * t) (hx : x % g ≠ 0)
    (hy : y % g ≠ 0) (h : x / g = y / g) :
    roundHalfEven x (g * t * 2) = roundHalfEven y (g * t * 2) := by
  have hoff : ∀ {z : Nat}, z % g ≠ 0 → z % (g * t) ≠ 0 := by
    intro z hz h0
    exact hz (Nat.mod_eq_zero_of_dvd (dvd_trans (dvd_mul_right g t) (Nat.dvd_of_mod_eq_zero h0)))
  rw [roundHalfEven_of_mod_ne_zero hpos (hoff hx), roundHalfEven_of_mod_ne_zero hpos (hoff hy),
    ← Nat.div_div_eq_div_mul, ← Nat.div_div_eq_div_mul, h]

/-- The place of a number strictly between two neighbours of a grid. -/
theorem div_mod_of_between {x g b : Nat} (hlo : b * g < x) (hhi : x < (b + 1) * g) :
    x / g = b ∧ x % g ≠ 0 := by
  have hg : 0 < g := by
    rcases Nat.eq_zero_or_pos g with rfl | hg
    · simp at hhi
    · exact hg
  have hdiv : x / g = b := by
    refine (Nat.div_eq_iff hg).2 ⟨hlo.le, ?_⟩
    rw [add_mul, one_mul] at hhi
    omega
  refine ⟨hdiv, fun h0 => ?_⟩
  have := Nat.div_add_mod x g
  rw [h0, hdiv, mul_comm] at this
  omega

/-- No power of ten lies strictly between two neighbouring multiples of five units. -/
theorem pow_not_between {b m j : Nat} (hlo : b * 5 * 10 ^ m < 10 ^ j)
    (hhi : 10 ^ j < (b + 1) * 5 * 10 ^ m) (hb : 0 < b) : False := by
  have hm : 0 < 10 ^ m := by positivity
  have hjm : m < j := by
    by_contra hle
    have hpow : 10 ^ j ≤ 10 ^ m := Nat.pow_le_pow_right (by decide) (by omega)
    have : 1 * 10 ^ m ≤ b * 5 * 10 ^ m := Nat.mul_le_mul_right _ (by omega)
    omega
  obtain ⟨i, rfl⟩ : ∃ i, j = i + 1 + m := ⟨j - m - 1, by omega⟩
  rw [pow_add, pow_succ] at hlo hhi
  have h₁ := Nat.lt_of_mul_lt_mul_right hlo
  have h₂ := Nat.lt_of_mul_lt_mul_right hhi
  omega

namespace Decimal

/-- Numbers strictly between two neighbouring multiples of five units have equally many digits. -/
theorem digitCount_le_of_between {b m x y : Nat} (hb : 0 < b) (hx : b * 5 * 10 ^ m < x)
    (hy : y < (b + 1) * 5 * 10 ^ m) : digitCount y ≤ digitCount x := by
  by_contra hlt
  have hy0 : y ≠ 0 := by
    rintro rfl
    have := digitCount_pos x
    rw [digitCount_zero] at hlt
    omega
  have hpow : 10 ^ digitCount x ≤ 10 ^ (digitCount y - 1) :=
    Nat.pow_le_pow_right (by decide) (by omega)
  have hlo := lt_pow_digitCount x
  have hhi := pow_pred_digitCount_le hy0
  exact pow_not_between (m := m) (j := digitCount x) (by omega) (by omega) hb

/-- **What lies between two neighbouring multiples of five is rounded alike**, if the precision does
not reach the units. -/
theorem round_congr_of_between {p : Precision} {n : Bool} {b m x y : Nat} {e : Int}
    (hb : 10 ^ p.digits ≤ b * 5) (hx : b * 5 * 10 ^ m < x) (hx' : x < (b + 1) * 5 * 10 ^ m)
    (hy : b * 5 * 10 ^ m < y) (hy' : y < (b + 1) * 5 * 10 ^ m) :
    round p n x e = round p n y e := by
  have hpow : 0 < 10 ^ p.digits := by positivity
  have hdigits : digitCount x = digitCount y :=
    Nat.le_antisymm (digitCount_le_of_between (by omega) hy hx')
      (digitCount_le_of_between (by omega) hx hy')
  have hexcess : excess p x e = excess p y e := by rw [excess, excess, hdigits]
  -- The place of the cut is above the units, so that the halves are multiples of five.
  have hlong : p.digits + m < digitCount x := by
    by_contra hle
    have hxlt := (digitCount_le_iff x (p.digits + m) (by have := p.positive; omega)).1 (by omega)
    have : 10 ^ p.digits * 10 ^ m ≤ b * 5 * 10 ^ m := Nat.mul_le_mul_right _ hb
    rw [pow_add] at hxlt
    omega
  obtain ⟨t, ht⟩ : ∃ t, excess p x e = m + 1 + t := by
    refine ⟨excess p x e - (m + 1), ?_⟩
    have := (excess_bounds p x e).1
    omega
  have hgrid : 10 ^ excess p x e = 5 * 10 ^ m * 10 ^ t * 2 := by
    rw [ht, pow_add, pow_succ]
    ring
  have hassoc : ∀ a : Nat, a * 5 * 10 ^ m = a * (5 * 10 ^ m) := fun a => mul_assoc a 5 _
  rw [hassoc] at hx hx' hy hy'
  obtain ⟨hxdiv, hxmod⟩ := div_mod_of_between hx hx'
  obtain ⟨hydiv, hymod⟩ := div_mod_of_between hy hy'
  rw [round_eq_finish (Nat.ne_of_gt (Nat.lt_of_le_of_lt (Nat.zero_le _) hx)),
    round_eq_finish (Nat.ne_of_gt (Nat.lt_of_le_of_lt (Nat.zero_le _) hy)), ← hexcess, hgrid,
    roundHalfEven_congr_of_grid (by positivity) hxmod hymod (hxdiv.trans hydiv.symm)]

/-! ## Signed sums -/

/-- A whole number of units, rounded. -/
def roundSigned (p : Precision) (m e : Int) : Except ArithmeticFault Decimal :=
  round p (m < 0) m.natAbs e

theorem toRat_signed (m e : Int) : (finite (m < 0) m.natAbs e).toRat = (m : ℚ) * 10 ^ e := by
  have hm : toSigned (decide (m < 0)) m.natAbs = m := by
    rw [toSigned]
    split
    · next h => have := of_decide_eq_true h; omega
    · next h => have : ¬ m < 0 := by simpa using h
                omega
  rw [toRat_finite, hm]

/-- A rounded sum depends on the exact sum alone. -/
theorem roundSigned_congr {p : Precision} {m m' e e' : Int}
    (h : (m : ℚ) * 10 ^ e = (m' : ℚ) * 10 ^ e') :
    (roundSigned p m e).map toRat = (roundSigned p m' e').map toRat := by
  refine congr_of_toRat_eq (fun n c e => (round p n c e).map toRat) ?_ ?_
    (by rw [toRat_signed, toRat_signed, h])
  · intro n e n' e'
    rw [round_zero, round_zero]
  · intro n c e k _
    exact round_shift p n c k e

/-- The sign of a sum is that of the larger summand. -/
theorem toSigned_add (n₁ n₂ : Bool) {a b : Nat} (h : b < a) :
    (toSigned n₁ a + toSigned n₂ b).natAbs = (if n₁ = n₂ then a + b else a - b) ∧
      decide (toSigned n₁ a + toSigned n₂ b < 0) = n₁ := by
  cases n₁ <;> cases n₂ <;> simp [toSigned] <;> omega

/-- A summand below one unit next to one with more digits than the precision: whatever it is, one
unit in its place gives the same rounded sum. -/
theorem roundSigned_nudge {p : Precision} {n₁ n₂ : Bool} {a b m : Nat} {e : Int}
    (ha : 10 ^ (p.digits + 1) ≤ a) (hten : 10 ∣ a) (hb : b ≠ 0) (hlt : b < 10 ^ m) :
    roundSigned p (toSigned n₁ (a * 10 ^ m) + toSigned n₂ b) e =
      roundSigned p (toSigned n₁ (a * 10 ^ m) + toSigned n₂ (10 ^ m)) e := by
  obtain ⟨d, rfl⟩ := hten
  have hpow : 10 ^ (p.digits + 1) = 10 * 10 ^ p.digits := pow_succ' ..
  have hp : 0 < 10 ^ p.digits := by positivity
  have hmpos : 0 < 10 ^ m := by positivity
  have hd : 10 * d * 10 ^ m = 10 * (d * 10 ^ m) := mul_assoc ..
  have hdm : 10 ^ m ≤ d * 10 ^ m := Nat.le_mul_of_pos_left _ (by omega)
  obtain ⟨h₁, hs₁⟩ := toSigned_add n₁ n₂ (a := 10 * d * 10 ^ m) (b := b) (by omega)
  obtain ⟨h₂, hs₂⟩ := toSigned_add n₁ n₂ (a := 10 * d * 10 ^ m) (b := 10 ^ m) (by omega)
  rw [roundSigned, roundSigned, h₁, h₂, hs₁, hs₂]
  split
  · refine round_congr_of_between (b := 2 * d) (m := m) (by omega) ?_ ?_ ?_ ?_ <;>
      simp only [add_mul, mul_assoc, mul_left_comm _ 5, one_mul] <;> omega
  · obtain ⟨k, rfl⟩ : ∃ k, d = k + 1 := ⟨d - 1, by omega⟩
    refine round_congr_of_between (b := 2 * k + 1) (m := m) (by omega) ?_ ?_ ?_ ?_ <;>
      simp only [add_mul, mul_assoc, mul_left_comm _ 5, one_mul] at * <;> omega

theorem shifted_eq (c places : Nat) : shifted c places = c * 10 ^ places := by
  unfold shifted
  split
  · next h => rw [h, zero_mul]
  · rfl

/-- The rounding step of a sum, without the sign that a sum of zero has. -/
theorem round_sum (p : Precision) (n : Bool) (m e : Int) :
    (round p (if m = 0 then n else m < 0) m.natAbs e).map toRat =
      (roundSigned p m e).map toRat := by
  unfold roundSigned
  split
  · next h => rw [h, Int.natAbs_zero, round_zero, round_zero]
  · rfl

/-- What stands in for a small summand: itself, or one unit at a limit that lies above it and far
enough below the last digit of the larger one. -/
theorem nudge_cases (p : Precision) (c : Nat) (e : Int) (small : Nat) (smallExp : Int) :
    nudge p c e small smallExp = (small, smallExp) ∨
      ∃ limit : Int, nudge p c e small smallExp = (if small = 0 then 0 else 1, limit) ∧ c ≠ 0 ∧
        adjusted small smallExp < limit ∧ limit < e ∧
        (p.digits + 2 : Int) ≤ digitCount c + (e - limit) := by
  unfold nudge
  simp only
  generalize hl :
    e - 1 + (if p.digits < digitCount c then 0 else (digitCount c : Int) - p.digits - 1) = limit
  split
  · next h =>
    obtain ⟨hc, hlimit⟩ : c ≠ 0 ∧ adjusted small smallExp < limit := by simpa using h
    refine Or.inr ⟨limit, rfl, hc, hlimit, ?_⟩
    split at hl <;> constructor <;> omega
  · exact Or.inl rfl

/-- The sum of two aligned numbers is the exact sum, rounded. -/
theorem addAligned_eq (p : Precision) (n₁ : Bool) (c₁ : Nat) (e₁ : Int) (n₂ : Bool) (c₂ : Nat)
    {e₂ : Int} (he : e₂ ≤ e₁) :
    (addAligned p n₁ c₁ e₁ n₂ c₂ e₂).map toRat =
      (roundSigned p (toSigned n₁ (c₁ * 10 ^ (e₁ - e₂).toNat) + toSigned n₂ c₂) e₂).map toRat := by
  unfold addAligned
  rcases nudge_cases p c₁ e₁ c₂ e₂ with h | ⟨limit, h, hc, hlimit, hlow, hroom⟩
  · rw [h]
    simp only [shifted_eq]
    rw [round_sum]
  · rw [h]
    simp only [shifted_eq]
    have hpos := digitCount_pos c₂
    simp only [adjusted] at hlimit
    -- The limit lies at least one place below the larger summand and above the smaller one.
    obtain ⟨a, ha⟩ : ∃ a : Nat, e₁ = limit + 1 + a := ⟨(e₁ - limit - 1).toNat, by omega⟩
    obtain ⟨m, hm⟩ : ∃ m : Nat, limit = e₂ + m := ⟨(limit - e₂).toNat, by omega⟩
    have hunits : (e₁ - limit).toNat = a + 1 := by omega
    have hall : (e₁ - e₂).toNat = a + 1 + m := by omega
    have hsmall : c₂ < 10 ^ m :=
      Nat.lt_of_lt_of_le (lt_pow_digitCount c₂) (Nat.pow_le_pow_right (by decide) (by omega))
    have hlarge : 10 ^ (p.digits + 1) ≤ c₁ * 10 ^ (a + 1) := by
      calc 10 ^ (p.digits + 1) ≤ 10 ^ (digitCount c₁ - 1 + (a + 1)) :=
            Nat.pow_le_pow_right (by decide) (by omega)
        _ = 10 ^ (digitCount c₁ - 1) * 10 ^ (a + 1) := pow_add ..
        _ ≤ c₁ * 10 ^ (a + 1) := Nat.mul_le_mul_right _ (pow_pred_digitCount_le hc)
    have hten : 10 ∣ c₁ * 10 ^ (a + 1) := by
      rw [pow_succ, ← mul_assoc]
      exact dvd_mul_left 10 _
    rw [round_sum, hunits, hall, pow_add 10 (a + 1) m, ← mul_assoc]
    generalize c₁ * 10 ^ (a + 1) = large at hlarge hten
    split
    · next h0 =>
      rw [h0]
      refine roundSigned_congr ?_
      rw [hm, zpow_add₀ (by norm_num), zpow_natCast]
      cases n₁ <;> cases n₂ <;> simp [toSigned] <;> ring
    · next h0 =>
      -- The smaller summand lies below the last place that counts, so that a nudge stands for it.
      rw [roundSigned_nudge hlarge hten h0 hsmall]
      refine roundSigned_congr ?_
      rw [hm, zpow_add₀ (by norm_num), zpow_natCast]
      cases n₁ <;> cases n₂ <;> simp [toSigned] <;> ring

/-- The exact sum of two aligned numbers, in units of the lower exponent. -/
theorem aligned_cast (n₁ : Bool) (c₁ : Nat) (e₁ : Int) (n₂ : Bool) (c₂ : Nat) {e₂ : Int}
    (he : e₂ ≤ e₁) :
    ((toSigned n₁ (c₁ * 10 ^ (e₁ - e₂).toNat) + toSigned n₂ c₂ : Int) : ℚ) * 10 ^ e₂ =
      (finite n₁ c₁ e₁).toRat + (finite n₂ c₂ e₂).toRat := by
  obtain ⟨k, rfl⟩ : ∃ k : Nat, e₂ = e₁ - k := ⟨(e₁ - e₂).toNat, by omega⟩
  rw [show (e₁ - (e₁ - (k : Int))).toNat = k by omega, ← toRat_shift n₁ c₁ k e₁, toRat_finite,
    toRat_finite, ← add_mul]
  push_cast
  ring

/-- **A sum is the exact sum of the numbers, rounded**, in whatever units the exact sum is
counted. -/
theorem add_eq_round {p : Precision} {x y : Decimal} (hx : x.IsFinite) (hy : y.IsFinite) {m e : Int}
    (h : (m : ℚ) * 10 ^ e = x.toRat + y.toRat) :
    (x.add p y).map toRat = (roundSigned p m e).map toRat := by
  obtain ⟨n₁, c₁, e₁, rfl⟩ := hx
  obtain ⟨n₂, c₂, e₂, rfl⟩ := hy
  change (addFinite p n₁ c₁ e₁ n₂ c₂ e₂).map toRat = _
  unfold addFinite
  split
  · next he =>
    rw [addAligned_eq p n₁ c₁ e₁ n₂ c₂ he]
    exact roundSigned_congr ((aligned_cast n₁ c₁ e₁ n₂ c₂ he).trans h.symm)
  · next he =>
    have he' : e₁ ≤ e₂ := by omega
    rw [addAligned_eq p n₂ c₂ e₂ n₁ c₁ he']
    exact roundSigned_congr ((aligned_cast n₂ c₂ e₂ n₁ c₁ he').trans (by rw [h, add_comm]))

theorem exists_sum {x y : Decimal} (hx : x.IsFinite) (hy : y.IsFinite) :
    ∃ m e : Int, (m : ℚ) * 10 ^ e = x.toRat + y.toRat := by
  obtain ⟨n₁, c₁, e₁, rfl⟩ := hx
  obtain ⟨n₂, c₂, e₂, rfl⟩ := hy
  rcases le_total e₂ e₁ with he | he
  · exact ⟨_, _, aligned_cast n₁ c₁ e₁ n₂ c₂ he⟩
  · exact ⟨_, _, (aligned_cast n₂ c₂ e₂ n₁ c₁ he).trans (add_comm ..)⟩

theorem rounded_addFinite {p : Precision} {n₁ n₂ : Bool} {c₁ c₂ : Nat} {e₁ e₂ : Int} {z : Decimal}
    (h : addFinite p n₁ c₁ e₁ n₂ c₂ e₂ = .ok z) : z.Rounded p := by
  unfold addFinite at h
  split at h <;> exact rounded_round h

theorem add_fits {p : Precision} {x y z : Decimal} (hx : x.IsFinite) (hy : y.IsFinite)
    (h : x.add p y = .ok z) : z.Fits p := by
  obtain ⟨n₁, c₁, e₁, rfl⟩ := hx
  obtain ⟨n₂, c₂, e₂, rfl⟩ := hy
  change addFinite p n₁ c₁ e₁ n₂ c₂ e₂ = .ok z at h
  exact (rounded_addFinite h).fits

/-- Finite sums are rounded. -/
theorem rounded_add {p : Precision} {x y z : Decimal} (h : x.add p y = .ok z) (hz : z.IsFinite) :
    z.Rounded p := by
  unfold add at h
  split at h
  · next r hr => exact absurd hz (not_isFinite_of_propagate₂? hr h)
  · next hdefined =>
    split at h
    · exact rounded_addFinite h
    · split at h
      · cases h
        exact absurd hz (not_isFinite_infinite _)
      · cases h
    · cases h
      exact absurd hz (not_isFinite_infinite _)
    · next hinfinite hfinite _ =>
      -- What is left is a finite number and one that is not, which is the sum.
      cases h
      obtain ⟨n, c, e, rfl⟩ := hz
      cases x with
      | finite m d k => exact (hfinite m d k n c e rfl rfl).elim
      | infinite m => exact (hinfinite m rfl).elim
      | undefined m s d => cases hdefined

/-- Sums depend on the numbers alone. -/
theorem add_congr (p : Precision) {x x' y y' : Decimal} (hx : Same x x') (hy : Same y y') :
    Agree Eq Same (x.add p y) (x'.add p y') := by
  refine agree_of_map_toRat ?_ (fun z h => (add_fits hx.left hy.left h).isFinite)
    (fun z h => (add_fits hx.right hy.right h).isFinite)
  obtain ⟨m, e, h⟩ := exists_sum hx.left hy.left
  rw [add_eq_round hx.left hy.left h,
    add_eq_round hx.right hy.right (h.trans (by rw [hx.toRat_eq, hy.toRat_eq]))]

theorem isFinite_flip {x : Decimal} (h : x.IsFinite) : x.flip.IsFinite := by
  obtain ⟨n, c, e, rfl⟩ := h
  exact isFinite_finite (!n) c e

theorem sub_fits {p : Precision} {x y z : Decimal} (hx : x.IsFinite) (hy : y.IsFinite)
    (h : x.sub p y = .ok z) : z.Fits p := add_fits hx (isFinite_flip hy) h

theorem rounded_sub {p : Precision} {x y z : Decimal} (h : x.sub p y = .ok z) (hz : z.IsFinite) :
    z.Rounded p := rounded_add h hz

/-- Differences depend on the numbers alone. -/
theorem sub_congr (p : Precision) {x x' y y' : Decimal} (hx : Same x x') (hy : Same y y') :
    Agree Eq Same (x.sub p y) (x'.sub p y') :=
  add_congr p hx ⟨isFinite_flip hy.left, isFinite_flip hy.right, by
    rw [toRat_flip hy.left, toRat_flip hy.right, hy.toRat_eq]⟩

end Decimal

end BusinessRules

import BusinessRules.Proofs.Decimal.Rounding

/-!
# Written numbers read back

The plain text of a finite number is a numeral of the same number: the point stands where the
exponent says, and the zeros that a positive exponent calls for are written out.

## Main statements

* `read?_plain`: what the reader makes of a plain text
* `plain_written`: what is read is written in the same way again
* `toDecimal?_written`: the number read is the number written
-/

namespace BusinessRules

/- Powers are the plain ones of the natural numbers and the integers. -/
attribute [local instance (2000)] instPowNat

namespace Text

theorem digitValue?_of_isDigit {c : Char} (h : c.isDigit = true) :
    digitValue? c = some (c.toNat - 48) := by
  obtain ⟨h₁, h₂⟩ : 48 ≤ c.toNat ∧ c.toNat ≤ 57 := by
    simpa [Char.isDigit, UInt32.le_iff_toNat_le] using h
  have hfind : (digitZeros.find? fun z => z ≤ c.toNat && c.toNat < z + 10) = some 0x30 := by
    refine List.find?_cons_of_pos ?_
    simp only [Bool.and_eq_true, decide_eq_true_eq]
    omega
  rw [digitValue?, hfind]
  rfl

theorem isDigit_of_isDigit {c : Char} (h : c.isDigit = true) : isDigit c = true := by
  rw [isDigit, digitValue?_of_isDigit h, Option.isSome_some]

/-- A run of digits spells the number that its values spell in base ten. -/
theorem digitsValue_eq {cs : List Char} (h : ∀ c ∈ cs, c.isDigit = true) :
    digitsValue cs = Nat.ofDigitChars 10 cs 0 := by
  have hvalues : cs.filterMap digitValue? = cs.map fun c => c.toNat - 48 := by
    induction cs with
    | nil => rfl
    | cons c cs ih =>
      rw [List.filterMap_cons, digitValue?_of_isDigit (h c (by simp)),
        ih fun d hd => h d (by simp [hd]), List.map_cons]
  rw [digitsValue, ofDigits_eq_foldl, hvalues, List.foldl_map, Nat.ofDigitChars_eq_foldl]
  rfl

end Text

namespace Numeral

theorem takeMantissa?_whole {ws : List Char} (h : ∀ c ∈ ws, Text.isDigit c = true) (hne : ws ≠ []) :
    takeMantissa? ws = some (ws, [], []) := by
  have htake : ws.takeWhile Text.isDigit = ws := List.takeWhile_eq_self_iff.2 h
  have hdrop : ws.dropWhile Text.isDigit = [] := List.dropWhile_eq_nil_iff.2 h
  unfold takeMantissa?
  simp only [htake, hdrop]
  simp [hne]

theorem takeMantissa?_point {ws fs : List Char} (hw : ∀ c ∈ ws, Text.isDigit c = true)
    (hf : ∀ c ∈ fs, Text.isDigit c = true) (hne : ws ≠ []) :
    takeMantissa? (ws ++ '.' :: fs) = some (ws, fs, []) := by
  have hdot : ¬ Text.isDigit '.' = true := by decide
  have htake : (ws ++ '.' :: fs).takeWhile Text.isDigit = ws := by
    rw [List.takeWhile_append_of_pos hw, List.takeWhile_cons_of_neg hdot, List.append_nil]
  have hdrop : (ws ++ '.' :: fs).dropWhile Text.isDigit = '.' :: fs := by
    rw [List.dropWhile_append_of_pos hw, List.dropWhile_cons_of_neg hdot]
  have htake' : fs.takeWhile Text.isDigit = fs := List.takeWhile_eq_self_iff.2 hf
  have hdrop' : fs.dropWhile Text.isDigit = [] := List.dropWhile_eq_nil_iff.2 hf
  unfold takeMantissa?
  simp only [htake, hdrop, htake', hdrop']
  simp [hne]

/-- A sign in front of a digit is taken off. -/
theorem takeSign_signed (negative : Bool) {c : Char} {cs : List Char}
    (h : Text.isDigit c = true) :
    takeSign (Decimal.signed negative (c :: cs)) = (negative, c :: cs) := by
  cases negative with
  | true => rfl
  | false =>
    have hplus : c ≠ '+' := by rintro rfl; revert h; decide
    have hminus : c ≠ '-' := by rintro rfl; revert h; decide
    change takeSign (c :: cs) = (false, c :: cs)
    unfold takeSign
    split
    · next heq => exact absurd (List.cons.inj heq).1 hplus
    · next heq => exact absurd (List.cons.inj heq).1 hminus
    · rfl

/-- The reader on a signed mantissa whose digits and point are known. -/
theorem read?_signed (negative : Bool) {body ws fs : List Char} (hbody : ∃ c cs, body = c :: cs ∧
    Text.isDigit c = true) (h : takeMantissa? body = some (ws, fs, [])) :
    read? (Decimal.signed negative body) =
      some ⟨negative, Text.digitsValue (ws ++ fs), 0 - fs.length⟩ := by
  obtain ⟨c, cs, rfl, hc⟩ := hbody
  rw [read?, takeSign_signed negative hc]
  simp only [h, Option.bind_some, takePower?, Option.map_some]

/-- A numeral stands for the decimal with its parts. -/
theorem eq_of_toDecimal? {n : Numeral} {d : Decimal} (h : n.toDecimal? = some d) :
    d = .finite n.negative n.coefficient n.exponent := by
  rw [toDecimal?] at h
  split at h
  · exact (Option.some.inj h).symm
  · cases h

end Numeral

namespace Decimal

theorem digits_isDigit {n : Nat} {c : Char} (h : c ∈ digits n) : c.isDigit = true :=
  Nat.isDigit_of_mem_toDigits (by decide) (by decide) h

theorem exists_digits (n : Nat) : ∃ c cs, digits n = c :: cs ∧ c.isDigit = true := by
  rcases hd : digits n with _ | ⟨c, cs⟩
  · exact absurd hd Nat.toDigits_ne_nil
  · exact ⟨c, cs, rfl, digits_isDigit (hd ▸ List.mem_cons_self)⟩

theorem ofDigitChars_digits (n : Nat) : Nat.ofDigitChars 10 (digits n) 0 = n :=
  Nat.ofDigitChars_ten_toDigits

theorem isDigit_of_mem_replicate {k : Nat} {c : Char} (h : c ∈ List.replicate k '0') :
    c.isDigit = true := by
  rw [List.eq_of_mem_replicate h]
  decide

/-- The value of digits with zeros on both sides. -/
theorem digitsValue_padded (j n k : Nat) :
    Text.digitsValue (List.replicate j '0' ++ digits n ++ List.replicate k '0') = n * 10 ^ k := by
  have hall : ∀ c ∈ List.replicate j '0' ++ digits n ++ List.replicate k '0', c.isDigit = true := by
    intro c hc
    rcases List.mem_append.1 hc with hc | hc
    · rcases List.mem_append.1 hc with hc | hc
      · exact isDigit_of_mem_replicate hc
      · exact digits_isDigit hc
    · exact isDigit_of_mem_replicate hc
  rw [Text.digitsValue_eq hall, Nat.ofDigitChars_append, Nat.ofDigitChars_append,
    Nat.ofDigitChars_replicate_zero, Nat.ofDigitChars_replicate_zero, mul_zero, ofDigitChars_digits,
    mul_comm]

theorem isDigit_digits {n : Nat} : ∀ c ∈ digits n, Text.isDigit c = true :=
  fun _ h => Text.isDigit_of_isDigit (digits_isDigit h)

/-- The mantissa of pointed digits: the coefficient, with its last digits after the point. -/
theorem takeMantissa?_pointed (c : Nat) {places : Nat} (hp : places ≠ 0) :
    ∃ ws fs, Numeral.takeMantissa? (pointed c places) = some (ws, fs, []) ∧
      Text.digitsValue (ws ++ fs) = c ∧ fs.length = places ∧
      ∃ d ds, pointed c places = d :: ds ∧ Text.isDigit d = true := by
  have hvalue : Text.digitsValue (digits c) = c := by
    simpa using digitsValue_padded 0 c 0
  obtain ⟨d, ds, hd, hdig⟩ := exists_digits c
  unfold pointed
  simp only [if_neg hp]
  split
  · next hlt =>
    -- There are digits in front of the point, at least one.
    have hne : (digits c).take ((digits c).length - places) ≠ [] := by
      intro h0
      have := congrArg List.length h0
      simp only [List.length_take, List.length_nil] at this
      omega
    refine ⟨_, _, Numeral.takeMantissa?_point ?_ ?_ hne, ?_, ?_, ?_⟩
    · exact fun x hx => isDigit_digits x (List.mem_of_mem_take hx)
    · exact fun x hx => isDigit_digits x (List.mem_of_mem_drop hx)
    · rw [List.take_append_drop, hvalue]
    · rw [List.length_drop]
      omega
    · obtain ⟨j, hj⟩ : ∃ j, (digits c).length - places = j + 1 :=
        ⟨(digits c).length - places - 1, by omega⟩
      rw [hj, hd]
      exact ⟨d, _, rfl, Text.isDigit_of_isDigit hdig⟩
  · next hle =>
    -- All digits stand behind the point, filled up with zeros.
    have hpad := digitsValue_padded (places - (digits c).length + 1) c 0
    have hzero : ∀ x ∈ ['0'], Text.isDigit x = true := by
      intro x hx
      rw [List.mem_singleton.1 hx]
      decide
    refine ⟨['0'], List.replicate (places - (digits c).length) '0' ++ digits c,
      Numeral.takeMantissa?_point hzero ?_ (by simp), ?_, ?_, ⟨'0', _, rfl, by decide⟩⟩
    · intro x hx
      rcases List.mem_append.1 hx with hx | hx
      · exact Text.isDigit_of_isDigit (isDigit_of_mem_replicate hx)
      · exact isDigit_digits x hx
    · simpa [List.replicate_succ] using hpad
    · rw [List.length_append, List.length_replicate]
      omega

/-- **What the reader makes of a plain text**: zeros that the exponent calls for belong to the
coefficient. -/
theorem read?_plain (n : Bool) (c : Nat) (e : Int) :
    Numeral.read? (plain (.finite n c e)) = some ⟨n, c * 10 ^ e.toNat, min e 0⟩ := by
  simp only [plain]
  split
  · next he =>
    -- A zero gets no further zeros, which would not change its value.
    obtain ⟨k, hplain, hk⟩ : ∃ k,
        (if c = 0 then ['0'] else digits c ++ List.replicate e.toNat '0') =
        digits c ++ List.replicate k '0' ∧ c * 10 ^ k = c * 10 ^ e.toNat := by
      split
      · next h0 => exact ⟨0, by rw [h0]; rfl, by rw [h0, zero_mul, zero_mul]⟩
      · exact ⟨e.toNat, rfl, rfl⟩
    obtain ⟨d, ds, hd, hdig⟩ := exists_digits c
    have hall : ∀ x ∈ digits c ++ List.replicate k '0', Text.isDigit x = true := by
      intro x hx
      rcases List.mem_append.1 hx with hx | hx
      · exact isDigit_digits x hx
      · exact Text.isDigit_of_isDigit (isDigit_of_mem_replicate hx)
    have hhead : ∃ d ds, digits c ++ List.replicate k '0' = d :: ds ∧ Text.isDigit d = true :=
      ⟨d, ds ++ List.replicate k '0', by rw [hd, List.cons_append], Text.isDigit_of_isDigit hdig⟩
    have hmantissa := Numeral.takeMantissa?_whole hall (by rw [hd]; simp)
    have hvalue : Text.digitsValue (digits c ++ List.replicate k '0') = c * 10 ^ k := by
      simpa using digitsValue_padded 0 c k
    rw [hplain, Numeral.read?_signed n hhead hmantissa, List.append_nil, hvalue, hk,
      min_eq_right he]
    rfl
  · next he =>
    have hplaces : (-e).toNat ≠ 0 := by omega
    obtain ⟨ws, fs, hread, hvalue, hlength, hhead⟩ := takeMantissa?_pointed c hplaces
    rw [Numeral.read?_signed n hhead hread, hvalue, hlength, show e.toNat = 0 by omega, pow_zero,
      mul_one, show min e 0 = 0 - ((-e).toNat : Int) by omega]

theorem digits_mul_pow {c : Nat} (hc : c ≠ 0) (k : Nat) :
    digits (c * 10 ^ k) = digits c ++ List.replicate k '0' := by
  induction k with
  | zero => simp
  | succ k ih =>
    have hpos : 0 < c * 10 ^ k := Nat.mul_pos (Nat.pos_of_ne_zero hc) (by positivity)
    have hlast : digits (10 * (c * 10 ^ k) + 0) = digits (c * 10 ^ k) ++ ['0'] :=
      (Nat.toDigits_append_toDigits (by decide) hpos (by decide)).symm
    rw [show c * 10 ^ (k + 1) = 10 * (c * 10 ^ k) + 0 by ring, hlast, ih, List.append_assoc,
      ← List.replicate_succ']

/-- A number is written as it was when it has been written and read. -/
theorem plain_written (n : Bool) (c : Nat) (e : Int) :
    plain (.finite n (c * 10 ^ e.toNat) (min e 0)) = plain (.finite n c e) := by
  rcases lt_or_ge e 0 with he | he
  · rw [show e.toNat = 0 by omega, pow_zero, mul_one, min_eq_left he.le]
  · rw [min_eq_right he]
    simp only [plain, le_refl, if_true, if_pos he, Int.toNat_zero, List.replicate_zero,
      List.append_nil]
    rcases eq_or_ne c 0 with rfl | hc
    · rw [zero_mul, if_pos rfl, if_pos rfl]
    · have hc' : c * 10 ^ e.toNat ≠ 0 := Nat.mul_ne_zero hc (by positivity)
      rw [if_neg hc, if_neg hc', digits_mul_pow hc]

/-- **The number read is the number written**, if it is one that a numeral can denote. -/
theorem toDecimal?_written {n : Bool} {c : Nat} {e : Int} (h : (finite n c e).InRange) :
    ∃ x, (⟨n, c * 10 ^ e.toNat, min e 0⟩ : Numeral).toDecimal? = some x ∧ x.InRange ∧
      x.toRat = (finite n c e).toRat := by
  obtain ⟨n', c', e', heq, hlo, hhi⟩ := h
  cases heq
  have hexp : min e 0 = e - e.toNat := by omega
  have hadjusted : adjusted (c * 10 ^ e.toNat) (min e 0) ≤ Numeral.maxAdjusted := by
    rcases Nat.eq_zero_or_pos c with rfl | hc
    · rw [zero_mul, adjusted, digitCount_zero]
      simp only [Numeral.maxAdjusted]
      omega
    · rw [hexp, adjusted_shift (Nat.pos_iff_ne_zero.1 hc)]
      exact hhi
  have hmin : Numeral.minExponent ≤ min e 0 := by
    simp only [Numeral.minExponent] at hlo ⊢
    omega
  refine ⟨.finite n (c * 10 ^ e.toNat) (min e 0), ?_, ⟨n, _, _, rfl, hmin, hadjusted⟩, ?_⟩
  · rw [Numeral.toDecimal?, if_pos]
    rw [Bool.and_eq_true, decide_eq_true_eq, decide_eq_true_eq]
    exact ⟨hmin, hadjusted⟩
  · rw [hexp, toRat_shift]

end Decimal

end BusinessRules

import FieldBridge.Proofs.Decimal.Rounding

/-!
# The shortest decimal rounds to its float

Seventeen digits are enough: on that grid the step is smaller than the gap around a
float, so one of the two neighbours lies inside the interval. The search stops there
at the latest, and dropping zeros at the end keeps the value.
-/

namespace FieldBridge.Decimal

theorem lt_pow_digitCount (n : ℕ) : n < 10 ^ digitCount n :=
  (Nat.length_toDigits_le_iff (by decide) Nat.length_toDigits_pos).mp le_rfl

theorem pow_digitCount_le {n : ℕ} (hn : 0 < n) : 10 ^ (digitCount n - 1) ≤ n := by
  rcases Nat.lt_or_ge 1 (digitCount n) with h | h
  · by_contra hlt
    have := (Nat.length_toDigits_le_iff (b := 10) (n := n) (by decide) (by omega : 0 < digitCount n - 1)).mpr
      (by omega)
    unfold digitCount at *
    omega
  · rw [show digitCount n - 1 = 0 by omega]
    exact hn

/-! ## The leading place -/

theorem leadingPlace_reaches (denominator : ℕ) : ∀ (fuel value j : ℕ), denominator ≤ value * 10 ^ fuel →
    ∃ k, leadingPlace value denominator fuel j = j + k ∧ denominator ≤ value * 10 ^ k
  | 0, value, j, h => ⟨0, rfl, h⟩
  | fuel + 1, value, j, h => by
    unfold leadingPlace
    split
    · exact ⟨0, rfl, by simpa⟩
    · obtain ⟨k, hk, hd⟩ := leadingPlace_reaches denominator fuel (value * 10) (j + 1) (by rw [pow_succ] at h; linarith)
      exact ⟨k + 1, by rw [hk]; omega, by rw [pow_succ]; linarith⟩

section
variable {b : Binary}

theorem Interval.value_pos (hm : 0 < b.mantissa) : 0 < (Interval.of b).value :=
  Nat.mul_pos (by omega) (Nat.pow_pos (by decide))

/-- The least float needs 324 places, well within the 400 that are tried. -/
theorem Interval.denominator_le (hb : b.Proper) (hm : 0 < b.mantissa) :
    (Interval.of b).denominator ≤ (Interval.of b).value * 10 ^ 400 := by
  have hle := hb.least
  calc (Interval.of b).denominator ≤ 2 ^ (13 * 83) := Nat.pow_le_pow_right (by decide) (by omega)
    _ = (2 ^ 13) ^ 83 := pow_mul ..
    _ ≤ (10 ^ 4) ^ 83 := Nat.pow_le_pow_left (by decide) 83
    _ = 10 ^ (4 * 83) := (pow_mul ..).symm
    _ ≤ 10 ^ 400 := pow_le_pow_right₀ (by decide) (by decide)
    _ ≤ (Interval.of b).value * 10 ^ 400 := Nat.le_mul_of_pos_left _ (Interval.value_pos hm)

theorem Interval.magnitude_eq_div : b.magnitude = (Interval.of b).value / (Interval.of b).denominator := by
  have hden : ((Interval.of b).denominator : ℚ) ≠ 0 := by
    have := Interval.denominator_pos b
    positivity
  rw [Interval.value_eq]
  field_simp

/-- The leading digit stands where the search takes it to stand, or further left. -/
theorem Interval.leading_le (hb : b.Proper) (hm : 0 < b.mantissa) :
    (10 : ℚ) ^ (Interval.of b).leading ≤ b.magnitude := by
  have hden : (0 : ℚ) < (Interval.of b).denominator := by exact_mod_cast Interval.denominator_pos b
  rw [Interval.magnitude_eq_div, le_div_iff₀ hden]
  unfold Interval.leading
  split
  · rename_i h
    have hq : 0 < (Interval.of b).value / (Interval.of b).denominator :=
      Nat.div_pos h (Interval.denominator_pos b)
    have hpow := pow_digitCount_le hq
    have hcount : 1 ≤ digitCount ((Interval.of b).value / (Interval.of b).denominator) := Nat.length_toDigits_pos
    rw [show ((digitCount ((Interval.of b).value / (Interval.of b).denominator) : ℤ) - 1) =
      ((digitCount ((Interval.of b).value / (Interval.of b).denominator) - 1 : ℕ) : ℤ) by omega, zpow_natCast]
    have := (Nat.mul_le_mul_right _ hpow).trans (Nat.div_mul_le_self _ (Interval.of b).denominator)
    exact_mod_cast this
  · obtain ⟨k, hk, hd⟩ := leadingPlace_reaches _ 400 _ 0 (Interval.denominator_le hb hm)
    rw [hk, Nat.zero_add, zpow_neg, zpow_natCast, inv_mul_le_iff₀ (by positivity), mul_comm]
    exact_mod_cast hd

/-! ## Neighbours on a grid -/

theorem Interval.neighbours_value (e : ℤ) :
    ((Interval.of b).neighbours e).1.value ≤ b.magnitude ∧ b.magnitude < ((Interval.of b).neighbours e).2.value ∧
      ((Interval.of b).neighbours e).2.value = ((Interval.of b).neighbours e).1.value + 10 ^ e := by
  let i := Interval.of b
  let n : ℕ := i.value * 10 ^ (-e).toNat
  let D : ℕ := i.denominator * 10 ^ e.toNat
  have hlow : (i.neighbours e).1 = ⟨n / D, e⟩ := rfl
  have hhigh : (i.neighbours e).2 = ⟨n / D + 1, e⟩ := rfl
  have hden : (0 : ℚ) < i.denominator := by exact_mod_cast Interval.denominator_pos b
  have hc : (0 : ℚ) < i.denominator * 10 ^ (-e).toNat := by positivity
  have hn : (n : ℚ) = b.magnitude * (i.denominator * 10 ^ (-e).toNat) := by
    simp only [n]
    push_cast
    rw [Interval.value_eq]
    ring
  have hD : (D : ℚ) = 10 ^ e * (i.denominator * 10 ^ (-e).toNat) := by
    simp only [D]
    push_cast
    rw [← zpow_eq_div 10 (by norm_num) e]
    ring
  have hDpos : 0 < D := Nat.mul_pos (Interval.denominator_pos b) (Nat.pow_pos (by decide))
  rw [hlow, hhigh]
  simp only [Exact.value]
  refine ⟨?_, ?_, ?_⟩
  · rw [← mul_le_mul_iff_left₀ hc, ← hn, mul_assoc, ← hD]
    exact_mod_cast Nat.div_mul_le_self n D
  · rw [← mul_lt_mul_iff_left₀ hc, ← hn, mul_assoc, ← hD]
    exact_mod_cast Nat.lt_mul_of_div_lt (Nat.lt_succ_self _) hDpos
  · push_cast
    ring

/-- **Seventeen digits are enough** for one of the neighbours to round to the float. -/
theorem Interval.holds_neighbour (hb : b.Proper) (hm : 0 < b.mantissa) {e : ℤ}
    (he : (10 : ℚ) ^ (e + 16) ≤ b.magnitude) :
    (Interval.of b).holds ((Interval.of b).neighbours e).1 = true ∨
      (Interval.of b).holds ((Interval.of b).neighbours e).2 = true := by
  obtain ⟨hlow, hhigh, hstep⟩ := Interval.neighbours_value (b := b) e
  generalize ((Interval.of b).neighbours e).1 = low at *
  generalize ((Interval.of b).neighbours e).2 = high at *
  have hu : (0 : ℚ) < 2 ^ b.exponent := by positivity
  have hstep16 : (10 : ℚ) ^ e * 10 ^ 16 ≤ b.mantissa * 2 ^ b.exponent := by
    rw [zpow_add₀ (by norm_num)] at he
    exact_mod_cast he
  have hmag : b.magnitude = b.mantissa * 2 ^ b.exponent := rfl
  have hupper : b.upper = b.magnitude + 1 / 2 * 2 ^ b.exponent := by unfold Binary.upper Binary.magnitude; ring
  have hlower : b.lower = b.magnitude - b.below / 4 * 2 ^ b.exponent := by
    unfold Binary.lower Binary.magnitude; ring
  by_cases hpow : b.mantissa = 0x10000000000000 ∧ -1074 < b.exponent
  · -- under a power of two only the upper half has its full width, and the step fits into it
    have h2 : (b.mantissa : ℚ) = 0x10000000000000 := by rw [hpow.1]; norm_num
    have hbelow : (1 : ℚ) ≤ b.below := by exact_mod_cast b.below_pos
    right
    apply Interval.holds_of_between hm
    · nlinarith
    · rw [h2] at hstep16
      linarith
  · have hbelow : (b.below : ℚ) = 2 := by simp [Binary.below, hpow]
    have h53 : (b.mantissa : ℚ) ≤ 0x20000000000000 := by exact_mod_cast hb.mantissa_lt.le
    have hstep53 : (10 : ℚ) ^ e * 10 ^ 16 ≤ 0x20000000000000 * 2 ^ b.exponent :=
      hstep16.trans (mul_le_mul_of_nonneg_right h53 hu.le)
    rw [hbelow] at hlower
    rcases lt_or_ge (b.magnitude - low.value) (1 / 2 * 2 ^ b.exponent) with h | h
    · left
      apply Interval.holds_of_between hm <;> linarith
    · right
      apply Interval.holds_of_between hm <;> linarith

/-! ## The search -/

theorem Interval.nearer_eq_or (i : Interval) (low high : Exact) :
    i.nearer low high = low ∨ i.nearer low high = high := by
  unfold Interval.nearer
  grind

theorem Interval.search_holds (i : Interval) (leading : ℤ) : ∀ fuel n : ℕ,
    (∃ k < fuel, i.holds (i.neighbours (leading - (n + k : ℕ))).1 = true ∨
      i.holds (i.neighbours (leading - (n + k : ℕ))).2 = true) →
    i.holds (i.search leading fuel n) = true
  | 0, n, ⟨k, hk, _⟩ => absurd hk (Nat.not_lt_zero k)
  | fuel + 1, n, ⟨k, hk, hh⟩ => by
    unfold Interval.search
    simp only
    split
    · rename_i h1 h2
      rcases i.nearer_eq_or (i.neighbours (leading - n)).1 (i.neighbours (leading - n)).2 with h | h
      · rw [h]; exact h1
      · rw [h]; exact h2
    · assumption
    · assumption
    · rename_i h1 h2
      apply Interval.search_holds i leading fuel (n + 1)
      cases k with
      | zero => rw [Nat.add_zero, h1, h2] at hh; simp at hh
      | succ k => exact ⟨k, by omega, by rwa [show n + 1 + k = n + (k + 1) by omega]⟩

theorem Exact.stripped_value (d : Exact) : d.stripped.value = d.value :=
  go (digitCount d.digits) d
where
  go : ∀ (k : ℕ) (d : Exact), (Exact.stripped.go k d).value = d.value
    | 0, d => rfl
    | k + 1, d => by
      unfold Exact.stripped.go
      split
      · rename_i h
        rw [go k]
        have : d.digits = d.digits / 10 * 10 := by omega
        simp only [Exact.value]
        rw [zpow_add_one₀ (by norm_num)]
        conv_rhs => rw [this]
        push_cast
        ring
      · rfl

/-- **The shortest decimal rounds to its float.** -/
theorem shortest_holds (hb : b.Proper) (hm : 0 < b.mantissa) : (Interval.of b).holds (shortest b) = true := by
  have hfound : (Interval.of b).holds ((Interval.of b).search (Interval.of b).leading 17 0) = true := by
    apply Interval.search_holds
    refine ⟨16, by decide, ?_⟩
    apply Interval.holds_neighbour hb hm
    simpa using Interval.leading_le hb hm
  rw [Interval.holds_iff _ _ hm] at hfound ⊢
  unfold shortest
  rwa [Exact.stripped_value]

end

theorem parts_eq_of_shortest {a b : Binary} (ha : a.Proper) (hb : b.Proper) (hma : 0 < a.mantissa)
    (hmb : 0 < b.mantissa) (h : (shortest a).value = (shortest b).value) :
    a.mantissa = b.mantissa ∧ a.exponent = b.exponent :=
  Binary.parts_eq_of_holds ha hb hma hmb (shortest_holds ha hma) (shortest_holds hb hmb) h

end FieldBridge.Decimal

import FieldBridge.Decimal.Shortest
import Mathlib.Algebra.Order.Field.Power
import Mathlib.Tactic.FieldSimp
import Mathlib.Tactic.Linarith
import Mathlib.Tactic.Positivity
import Mathlib.Tactic.Ring

/-!
# Rounding intervals

The reals that round to a float lie between `lower` and `upper`, half a gap away on
either side. Two floats of different magnitude have no real in common, so a decimal
inside the interval of a float tells which float it came from.
-/

namespace FieldBridge.Decimal

/-- The magnitude of a float. -/
def Binary.magnitude (b : Binary) : ℚ := b.mantissa * 2 ^ b.exponent

def Exact.value (d : Exact) : ℚ := d.digits * 10 ^ d.exponent

/-- The form that every float has: at most 53 bits, and fewer than 53 only next to zero. -/
structure Binary.Proper (b : Binary) : Prop where
  mantissa_lt : b.mantissa < 0x20000000000000
  least : -1074 ≤ b.exponent
  most : b.exponent ≤ 972
  small : b.mantissa < 0x10000000000000 → b.exponent = -1074

namespace Binary

theorem proper_ofFloat (x : Float) : (ofFloat x).Proper := by
  have hf : x.toBits.toNat % 0x10000000000000 < 0x10000000000000 := Nat.mod_lt _ (by decide)
  constructor <;> simp only [ofFloat]
  · split <;> omega
  · omega
  · omega
  · split <;> omega

theorem toBits_injective {x y : Float} (h : x.toBits = y.toBits) : x = y := by
  obtain ⟨⟨a, ha⟩⟩ := x
  obtain ⟨⟨b, hb⟩⟩ := y
  change a = b at h
  subst h
  rfl

theorem ofFloat_injective {x y : Float} (h : ofFloat x = ofFloat y) : x = y := by
  have hx := x.toBits.toNat_lt
  have hy := y.toBits.toNat_lt
  simp only [ofFloat, mk.injEq, decide_eq_decide] at h
  obtain ⟨hs, hm, he⟩ := h
  refine toBits_injective (UInt64.toNat_inj.mp ?_)
  split at hm <;> split at hm <;> omega

/-- The gap below a float, in quarters of its unit: half of it under a power of two. -/
def below (b : Binary) : ℕ := if b.mantissa = 0x10000000000000 ∧ -1074 < b.exponent then 1 else 2

def lower (b : Binary) : ℚ := (b.mantissa - b.below / 4) * 2 ^ b.exponent

def upper (b : Binary) : ℚ := (b.mantissa + 1 / 2) * 2 ^ b.exponent

theorem below_le (b : Binary) : b.below ≤ 2 := by unfold below; split <;> omega

theorem below_pos (b : Binary) : 1 ≤ b.below := by unfold below; split <;> omega

end Binary

/-! ## The interval in whole numbers -/

theorem zpow_eq_div (a : ℚ) (ha : a ≠ 0) (e : ℤ) : a ^ e * a ^ (-e).toNat = a ^ e.toNat := by
  rcases le_total 0 e with h | h
  · have h0 : (-e).toNat = 0 := by omega
    rw [h0, pow_zero, mul_one, ← zpow_natCast, Int.toNat_of_nonneg h]
  · have h0 : e.toNat = 0 := by omega
    rw [h0, pow_zero, ← zpow_natCast, Int.toNat_of_nonneg (by omega), ← zpow_add₀ ha]
    simp

theorem two_zpow_scale (e : ℤ) : (2 : ℚ) ^ e * 2 ^ (2 - e).toNat = 4 * 2 ^ (e - 2).toNat := by
  have h := zpow_eq_div 2 (by norm_num) (e - 2)
  rw [show -(e - 2) = 2 - e by ring, zpow_sub₀ (by norm_num)] at h
  rw [← h]
  ring

section
variable (b : Binary) (d : Exact)

theorem Interval.scale_mul (q : ℚ) :
    4 * q * 2 ^ (b.exponent - 2).toNat = q * 2 ^ b.exponent * (Interval.of b).denominator := by
  have hden : (Interval.of b).denominator = 2 ^ (2 - b.exponent).toNat := rfl
  rw [hden]
  push_cast
  rw [mul_assoc q, two_zpow_scale]
  ring

theorem Interval.low_eq (hm : 0 < b.mantissa) :
    ((Interval.of b).low : ℚ) = b.lower * (Interval.of b).denominator := by
  have h4 : b.below ≤ 4 * b.mantissa := by have := b.below_le; omega
  have hlow : (Interval.of b).low = (4 * b.mantissa - b.below) * 2 ^ (b.exponent - 2).toNat := rfl
  rw [hlow, Binary.lower, ← Interval.scale_mul]
  push_cast [Nat.cast_sub h4]
  ring

theorem Interval.high_eq : ((Interval.of b).high : ℚ) = b.upper * (Interval.of b).denominator := by
  have hhigh : (Interval.of b).high = (4 * b.mantissa + 2) * 2 ^ (b.exponent - 2).toNat := rfl
  rw [hhigh, Binary.upper, ← Interval.scale_mul]
  push_cast
  ring

theorem Interval.value_eq : ((Interval.of b).value : ℚ) = b.magnitude * (Interval.of b).denominator := by
  have hval : (Interval.of b).value = 4 * b.mantissa * 2 ^ (b.exponent - 2).toNat := rfl
  rw [hval, Binary.magnitude, ← Interval.scale_mul]
  push_cast
  ring

theorem Interval.denominator_pos : 0 < (Interval.of b).denominator := Nat.pow_pos (by decide)

/-- Membership in whole numbers is membership in the reals, over one denominator. -/
theorem Interval.holds_iff (hm : 0 < b.mantissa) :
    (Interval.of b).holds d = true ↔
      if b.mantissa % 2 = 0 then b.lower ≤ d.value ∧ d.value ≤ b.upper
      else b.lower < d.value ∧ d.value < b.upper := by
  let i := Interval.of b
  let unit : ℕ := 10 ^ (-d.exponent).toNat
  let n : ℕ := d.digits * 10 ^ d.exponent.toNat * i.denominator
  have hden : (0 : ℚ) < i.denominator := by exact_mod_cast Interval.denominator_pos b
  have hD : (0 : ℚ) < i.denominator * unit := by positivity
  have hlow : (i.low * unit : ℚ) = b.lower * (i.denominator * unit) := by
    rw [Interval.low_eq b hm]; ring
  have hhigh : (i.high * unit : ℚ) = b.upper * (i.denominator * unit) := by
    rw [Interval.high_eq b]; ring
  have hn : (n : ℚ) = d.value * (i.denominator * unit) := by
    have hz := zpow_eq_div 10 (by norm_num) d.exponent
    simp only [n, unit, Exact.value]
    push_cast
    rw [← hz]
    ring
  have hclosed : i.closed = (b.mantissa % 2 == 0) := rfl
  have hholds : i.holds d =
      if i.closed then decide (i.low * unit ≤ n) && decide (n ≤ i.high * unit)
      else decide (i.low * unit < n) && decide (n < i.high * unit) := rfl
  show i.holds d = true ↔ _
  rw [hholds, hclosed]
  by_cases he : b.mantissa % 2 = 0
  · simp only [he, beq_self_eq_true, ↓reduceIte, Bool.and_eq_true, decide_eq_true_eq]
    refine and_congr ?_ ?_
    · rw [← mul_le_mul_iff_left₀ hD, ← hlow, ← hn]; exact_mod_cast Iff.rfl
    · rw [← mul_le_mul_iff_left₀ hD, ← hhigh, ← hn]; exact_mod_cast Iff.rfl
  · simp only [he, beq_iff_eq, ↓reduceIte, Bool.and_eq_true, decide_eq_true_eq]
    refine and_congr ?_ ?_
    · rw [← mul_lt_mul_iff_left₀ hD, ← hlow, ← hn]; exact_mod_cast Iff.rfl
    · rw [← mul_lt_mul_iff_left₀ hD, ← hhigh, ← hn]; exact_mod_cast Iff.rfl

end

theorem Interval.between_of_holds {b : Binary} {d : Exact} (hm : 0 < b.mantissa)
    (h : (Interval.of b).holds d = true) : b.lower ≤ d.value ∧ d.value ≤ b.upper := by
  rw [Interval.holds_iff b d hm] at h
  split at h
  · exact h
  · exact ⟨h.1.le, h.2.le⟩

theorem Interval.holds_of_between {b : Binary} {d : Exact} (hm : 0 < b.mantissa)
    (hl : b.lower < d.value) (hu : d.value < b.upper) : (Interval.of b).holds d = true := by
  rw [Interval.holds_iff b d hm]
  split
  · exact ⟨hl.le, hu.le⟩
  · exact ⟨hl, hu⟩

/-! ## Intervals apart -/

namespace Binary

variable {a b : Binary}

theorem eq_of_parts (hs : a.negative = b.negative) (hm : a.mantissa = b.mantissa) (he : a.exponent = b.exponent) :
    a = b := by
  cases a; cases b; simp_all

/-- Of two floats with one exponent, the gaps between them leave room for both halves. -/
theorem upper_le_lower_of_mantissa_lt (he : a.exponent = b.exponent) (hm : a.mantissa < b.mantissa) :
    a.upper ≤ b.lower ∧ (a.mantissa % 2 = 0 → b.mantissa % 2 = 0 → a.upper < b.lower) := by
  have hp : (0 : ℚ) < 2 ^ b.exponent := by positivity
  have hb : (b.below : ℚ) ≤ 2 := by exact_mod_cast b.below_le
  simp only [upper, lower, he]
  refine ⟨mul_le_mul_of_nonneg_right ?_ hp.le, fun h1 h2 => mul_lt_mul_of_pos_right ?_ hp⟩
  · have : (a.mantissa + 1 : ℚ) ≤ b.mantissa := by exact_mod_cast hm
    linarith
  · have : (a.mantissa + 2 : ℚ) ≤ b.mantissa := by
      have : a.mantissa + 2 ≤ b.mantissa := by omega
      exact_mod_cast this
    linarith

/-- A float with a larger exponent has all 53 bits, so a float with a smaller one stays below. -/
theorem upper_le_lower_of_exponent_lt (ha : a.Proper) (hb : b.Proper) (he : a.exponent < b.exponent) :
    a.upper ≤ b.lower ∧ (a.mantissa % 2 = 0 → b.mantissa % 2 = 0 → a.upper < b.lower) := by
  have hmb : 0x10000000000000 ≤ b.mantissa := by
    by_contra h
    have := hb.small (by omega)
    have := ha.least
    omega
  have hleast : (0x3fffffffffffff : ℚ) / 4 ≤ b.mantissa - b.below / 4 := by
    by_cases h : b.mantissa = 0x10000000000000
    · have h1 : b.below = 1 := by
        have := ha.least
        simp only [below, h, true_and, ite_eq_left_iff]
        omega
      rw [h, h1]
      norm_num
    · have h1 : (0x10000000000001 : ℚ) ≤ b.mantissa := by
        have : 0x10000000000001 ≤ b.mantissa := by omega
        exact_mod_cast this
      have h2 : (b.below : ℚ) ≤ 2 := by exact_mod_cast b.below_le
      linarith
  have hpow : (2 : ℚ) ^ a.exponent * 2 ≤ 2 ^ b.exponent := by
    rw [← zpow_add_one₀ (by norm_num)]
    exact zpow_le_zpow_right₀ (by norm_num) (by omega)
  have hp : (0 : ℚ) < 2 ^ a.exponent := by positivity
  have hlow : (0x3fffffffffffff : ℚ) / 2 * 2 ^ a.exponent ≤ b.lower := by
    calc (0x3fffffffffffff : ℚ) / 2 * 2 ^ a.exponent
        = 0x3fffffffffffff / 4 * (2 ^ a.exponent * 2) := by ring
      _ ≤ 0x3fffffffffffff / 4 * 2 ^ b.exponent := by gcongr
      _ ≤ b.lower := by unfold lower; gcongr
  constructor
  · refine le_trans ?_ hlow
    have : (a.mantissa + 1 : ℚ) ≤ 0x20000000000000 := by exact_mod_cast ha.mantissa_lt
    unfold upper
    gcongr
    linarith
  · intro h1 _
    refine lt_of_lt_of_le ?_ hlow
    have : (a.mantissa + 2 : ℚ) ≤ 0x20000000000000 := by
      have := ha.mantissa_lt
      have : a.mantissa + 2 ≤ 0x20000000000000 := by omega
      exact_mod_cast this
    unfold upper
    gcongr
    linarith

theorem holds_disjoint (hma : 0 < a.mantissa) (hmb : 0 < b.mantissa)
    (hab : a.upper ≤ b.lower ∧ (a.mantissa % 2 = 0 → b.mantissa % 2 = 0 → a.upper < b.lower))
    {d e : Exact} (hd : (Interval.of a).holds d = true) (he : (Interval.of b).holds e = true) :
    d.value < e.value := by
  rw [Interval.holds_iff _ _ hma] at hd
  rw [Interval.holds_iff _ _ hmb] at he
  split at hd
  · split at he
    · exact lt_of_le_of_lt hd.2 (lt_of_lt_of_le (hab.2 ‹_› ‹_›) he.1)
    · exact lt_of_le_of_lt (hd.2.trans hab.1) he.1
  · split at he
    · exact lt_of_lt_of_le hd.2 (hab.1.trans he.1)
    · exact hd.2.trans (lt_of_le_of_lt hab.1 he.1)

/-- **Rounding is a function.** A decimal that two floats claim belongs to one magnitude. -/
theorem parts_eq_of_holds (ha : a.Proper) (hb : b.Proper) (hma : 0 < a.mantissa) (hmb : 0 < b.mantissa)
    {d e : Exact} (hd : (Interval.of a).holds d = true) (he : (Interval.of b).holds e = true)
    (hv : d.value = e.value) : a.mantissa = b.mantissa ∧ a.exponent = b.exponent := by
  rcases lt_trichotomy a.exponent b.exponent with h | h | h
  · exact absurd hv (holds_disjoint hma hmb (upper_le_lower_of_exponent_lt ha hb h) hd he).ne
  · rcases lt_trichotomy a.mantissa b.mantissa with hm | hm | hm
    · exact absurd hv (holds_disjoint hma hmb (upper_le_lower_of_mantissa_lt h hm) hd he).ne
    · exact ⟨hm, h⟩
    · exact absurd hv (holds_disjoint hmb hma (upper_le_lower_of_mantissa_lt h.symm hm) he hd).ne'
  · exact absurd hv (holds_disjoint hmb hma (upper_le_lower_of_exponent_lt hb ha h) he hd).ne'

end Binary

end FieldBridge.Decimal

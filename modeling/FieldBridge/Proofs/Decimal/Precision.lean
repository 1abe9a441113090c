import FieldBridge.Proofs.Decimal.Whole

/-!
# What is lost in rounding

A product or a quotient of floats is the exact one up to one part in `2 ^ 53`, as is a whole number
that is taken as a float. This holds as long as the results are neither so small that they have
fewer bits nor beyond the largest float.
-/

namespace FieldBridge.Decimal

open Float.Model (Format UnpackedFloat totalExponent)
open Float.Model.UnpackedFloat

/-- A positive float that uses all of its 53 bits, with its exact value. -/
def HasValue (x : Float) (v : ℚ) : Prop :=
  ∃ m e hm, Normal m e ∧ x.toModel.unpack = .finite .positive m e hm ∧ v = m * 2 ^ e

/-- At most one part in `2 ^ 53` off. -/
def Close (v w : ℚ) : Prop := |v - w| ≤ w / 2 ^ 53

theorem Close.le {v w : ℚ} (h : Close v w) : v ≤ w * (1 + 1 / 2 ^ 53) := by
  have := (abs_le.mp h).2
  linarith

theorem Close.ge {v w : ℚ} (h : Close v w) : w * (1 - 1 / 2 ^ 53) ≤ v := by
  have := (abs_le.mp h).1
  linarith

/-- Far from both ends of the range of floats. -/
def Moderate (v : ℚ) : Prop := 2 ^ (-1000 : ℤ) ≤ v ∧ v ≤ 2 ^ (1000 : ℤ)

namespace Moderate

variable {q : ℚ} {e : ℤ} {k : ℕ}

theorem of_between {v : ℚ} (hleast : 1 / 2 ^ 200 ≤ v) (hmost : v ≤ 2 ^ 200) : Moderate v := by
  constructor
  · refine le_trans ?_ hleast
    rw [one_div, ← zpow_natCast, ← zpow_neg]
    exact zpow_le_zpow_right₀ (by norm_num) (by norm_num)
  · refine hmost.trans ?_
    rw [← zpow_natCast]
    exact zpow_le_zpow_right₀ (by norm_num) (by norm_num)

theorem lt_exponent (h : Moderate (q * 2 ^ e)) (hq : q < 2 ^ k) : -1000 < k + e := by
  have hpos : (0 : ℚ) < 2 ^ e := by positivity
  have hlt : (2 : ℚ) ^ (-1000 : ℤ) < 2 ^ (k + e) := by
    rw [zpow_add₀ (by norm_num), zpow_natCast]
    exact h.1.trans_lt (mul_lt_mul_of_pos_right hq hpos)
  exact (zpow_lt_zpow_iff_right₀ (by norm_num)).mp hlt

theorem exponent_le (h : Moderate (q * 2 ^ e)) (hq : 2 ^ k ≤ q) : k + e ≤ 1000 := by
  have hpos : (0 : ℚ) < 2 ^ e := by positivity
  have hle : (2 : ℚ) ^ (k + e) ≤ 2 ^ (1000 : ℤ) := by
    rw [zpow_add₀ (by norm_num), zpow_natCast]
    exact (mul_le_mul_of_nonneg_right hq hpos.le).trans h.2
  exact (zpow_le_zpow_iff_right₀ (by norm_num)).mp hle

end Moderate

/-! ## Rounding a fraction -/

section
variable {n N d : ℕ} {accuracy : Accuracy}

theorem Represents.mantissa_eq (h : Represents (.ofMantissaAndAccuracy n accuracy) N d) : n = N / d := by
  rw [← h.quotient]
  cases accuracy with
  | exact => rfl
  | inexact o => cases o <;> rfl

theorem Represents.ofFraction (hd : 0 < d) :
    Represents (.ofMantissaAndAccuracy (N / d) (accuracyOfFraction (N % d) d)) N d := by
  unfold accuracyOfFraction
  by_cases hzero : N % d = 0
  · rw [if_pos hzero]
    constructor <;> simp [ExtendedMantissa.ofMantissaAndAccuracy, hzero, hd.ne']
  · rw [if_neg hzero]
    obtain hlt | heq | hgt := Nat.lt_trichotomy (2 * (N % d)) d
    · rw [Nat.compare_eq_lt.mpr hlt]
      constructor <;> simp [ExtendedMantissa.ofMantissaAndAccuracy] <;> omega
    · rw [Nat.compare_eq_eq.mpr heq]
      constructor <;> simp [ExtendedMantissa.ofMantissaAndAccuracy] <;> omega
    · rw [Nat.compare_eq_gt.mpr hgt]
      constructor <;> simp [ExtendedMantissa.ofMantissaAndAccuracy] <;> omega

/-- The first 53 bits of a number that has at least so many. -/
theorem leading_bounds (hn : 2 ^ 52 ≤ n) : 2 ^ 52 ≤ n / 2 ^ excess n ∧ n / 2 ^ excess n < 2 ^ 53 := by
  have hpos : n ≠ 0 := by omega
  have hlog : 52 + excess n = n.log2 := by
    have := (Nat.le_log2 hpos).mpr hn
    unfold excess
    omega
  constructor
  · rw [Nat.le_div_iff_mul_le (Nat.two_pow_pos _), ← pow_add, hlog]
    exact Nat.log2_self_le hpos
  · apply Nat.div_lt_of_lt_mul
    rw [← pow_add, show excess n + 53 = n.log2 + 1 by omega]
    exact Nat.lt_log2_self

theorem roundDiv_eq_normal (hn : 2 ^ 52 ≤ N / d) : ∃ m j, 2 ^ 52 ≤ m ∧ m < 2 ^ 53 ∧ j ≤ 1 ∧
    roundDiv N (d * 2 ^ excess (N / d)) = m * 2 ^ j := by
  obtain ⟨hlower, hupper⟩ := leading_bounds hn
  rw [Nat.div_div_eq_div_mul] at hlower hupper
  have hle := le_roundDiv N (d * 2 ^ excess (N / d))
  have hge := roundDiv_le N (d * 2 ^ excess (N / d))
  rcases Nat.lt_or_ge (roundDiv N (d * 2 ^ excess (N / d))) (2 ^ 53) with hlt | hcarry
  · exact ⟨_, 0, by omega, hlt, by omega, (Nat.mul_one _).symm⟩
  · exact ⟨2 ^ 52, 1, by omega, by omega, by omega, by omega⟩

theorem abs_roundDiv_sub_div_le (N : ℕ) (hd : 0 < d) : |(roundDiv N d : ℚ) - N / d| ≤ 1 / 2 := by
  have hpos : (0 : ℚ) < d := by exact_mod_cast hd
  have hhalf : 2 * |(roundDiv N d : ℚ) * d - N| ≤ d := by exact_mod_cast abs_roundDiv_sub_le N hd
  have hscale : (roundDiv N d : ℚ) * d - N = (roundDiv N d - N / d) * d := by field_simp
  rw [hscale, abs_mul, abs_of_pos hpos] at hhalf
  nlinarith

/-- A fraction of at least 53 bits is rounded to within half a unit of the last of them. -/
theorem roundWithAccuracy_close {e : ℤ} (hd : 0 < d) (h : Represents (.ofMantissaAndAccuracy n accuracy) N d)
    (hn : 2 ^ 52 ≤ n) (hmoderate : Moderate (N / d * 2 ^ e)) :
    ∃ m e' hm, Normal m e' ∧ roundWithAccuracy .binary64 .positive n e accuracy = .finite .positive m e' hm ∧
      Close (m * 2 ^ e') (N / d * 2 ^ e) := by
  obtain rfl := h.mantissa_eq
  obtain ⟨hlower, hupper⟩ := leading_bounds hn
  obtain ⟨m, j, hleast, hmost, hj, hround⟩ := roundDiv_eq_normal hn
  have hlog : 52 ≤ (N / d).log2 := (Nat.le_log2 (by omega)).mpr hn
  have hrounded := (h.shifted hd (excess (N / d))).roundedMantissa (Nat.mul_pos hd (Nat.two_pow_pos _))
  have hi : (N / d).log2 = 52 + excess (N / d) := by
    unfold excess
    omega
  generalize excess (N / d) = i at *
  -- in units of the last bit that is kept
  have hD : 0 < d * 2 ^ i := Nat.mul_pos hd (Nat.two_pow_pos i)
  have hunit : (N / d * 2 ^ e : ℚ) = N / (d * 2 ^ i : ℕ) * 2 ^ (e + i) := by
    have hdpos : (d : ℚ) ≠ 0 := by exact_mod_cast hd.ne'
    rw [zpow_add₀ (by norm_num), zpow_natCast]
    push_cast
    field_simp
  rw [Nat.div_div_eq_div_mul] at hlower hupper
  have hlower' : (2 : ℚ) ^ 52 ≤ N / (d * 2 ^ i : ℕ) := by
    rw [le_div_iff₀ (by exact_mod_cast hD)]
    exact_mod_cast (Nat.le_div_iff_mul_le hD).mp hlower
  have hupper' : (N / (d * 2 ^ i : ℕ) : ℚ) < 2 ^ 53 := by
    rw [div_lt_iff₀ (by exact_mod_cast hD)]
    exact_mod_cast (Nat.div_lt_iff_lt_mul hD).mp hupper
  rw [hunit] at hmoderate ⊢
  have hsmall := hmoderate.lt_exponent hupper'
  have hlarge := hmoderate.exponent_le hlower'
  have hnormal : Normal m (e + i + j) := ⟨hleast, hmost, by omega, by omega⟩
  have hm : 0 < m := by omega
  refine ⟨m, e + i + j, hm, hnormal, ?_, ?_⟩
  · refine roundWithAccuracy_shifted hnormal hm ?_ (hrounded.trans hround)
    simp only [Format.targetExponent, totalExponent, Format.mantissaBits, Format.minExponent]
    omega
  · have hvalue : (m * 2 ^ (e + i + j) : ℚ) = roundDiv N (d * 2 ^ i) * 2 ^ (e + i) := by
      rw [hround, zpow_add₀ (by norm_num) (e + i), zpow_natCast]
      push_cast
      ring
    have hpos : (0 : ℚ) < 2 ^ (e + i) := by positivity
    rw [Close, hvalue, ← sub_mul, abs_mul, abs_of_pos hpos, mul_div_right_comm]
    refine mul_le_mul_of_nonneg_right ((abs_roundDiv_sub_div_le N hD).trans ?_) hpos.le
    linarith

end

/-! ## Products and quotients -/

theorem divCore_normal {m m' : ℕ} {e e' : ℤ} (h : Normal m e) (h' : Normal m' e') (hle : -1021 ≤ e - e') :
    divCore .binary64 m e m' e' =
      (m * 2 ^ 53 / m', e - e' - 53, accuracyOfFraction (m * 2 ^ 53 % m') m') := by
  have hexponent : min (e - e') (Format.binary64.targetExponent (totalExponent m e - totalExponent m' e')) =
      e - e' - 53 := by
    simp only [Format.targetExponent, totalExponent, Format.mantissaBits, Format.minExponent, h.log2, h'.log2]
    omega
  have hamount : (e - e' - (e - e' - 53)).toNat = 53 := by omega
  unfold divCore
  simp only [hexponent, hamount, Nat.shiftLeft_eq]

namespace HasValue

variable {x y : Float} {v w : ℚ}

theorem pos (h : HasValue x v) : 0 < v := by
  obtain ⟨m, e, hm, -, -, rfl⟩ := h
  have hm : (0 : ℚ) < m := by exact_mod_cast hm
  positivity

theorem pack {m : ℕ} {e : ℤ} (h : Normal m e) (hm : 0 < m) :
    HasValue (.ofModel (.pack (.finite .positive m e hm))) (m * 2 ^ e) :=
  ⟨m, e, hm, h, unpack_pack h hm, rfl⟩

theorem mul (hx : HasValue x v) (hy : HasValue y w) (h : Moderate (v * w)) :
    ∃ p, HasValue (x * y) p ∧ Close p (v * w) := by
  obtain ⟨m, e, hm, hnormal, hx, rfl⟩ := hx
  obtain ⟨m', e', hm', hnormal', hy, rfl⟩ := hy
  have hexact : (m * 2 ^ e * (m' * 2 ^ e') : ℚ) = (m * m' : ℕ) / (1 : ℕ) * 2 ^ (e + e') := by
    rw [zpow_add₀ (by norm_num)]
    push_cast
    ring
  have hbits : 2 ^ 52 ≤ m * m' := hnormal.lower.trans (Nat.le_mul_of_pos_right m hm')
  rw [hexact] at h ⊢
  obtain ⟨n, i, hn, hrounded, hround, hclose⟩ :=
    roundWithAccuracy_close Nat.one_pos (Represents.whole (m * m')) hbits h
  have hmul : x * y = .ofModel (.pack (.finite .positive n i hn)) := by
    change Float.ofModel (.pack (.mul .binary64 x.toModel.unpack y.toModel.unpack)) = _
    rw [hx, hy, ← hround]
    rfl
  exact ⟨_, hmul ▸ pack hrounded hn, hclose⟩

theorem div (hx : HasValue x v) (hy : HasValue y w) (h : Moderate (v / w)) :
    ∃ q, HasValue (x / y) q ∧ Close q (v / w) := by
  obtain ⟨m, e, hm, hnormal, hx, rfl⟩ := hx
  obtain ⟨m', e', hm', hnormal', hy, rfl⟩ := hy
  have hdivisor : (0 : ℚ) < m' := by exact_mod_cast hm'
  have hratio : (m * 2 ^ e / (m' * 2 ^ e') : ℚ) = m / m' * 2 ^ (e - e') := by
    rw [zpow_sub₀ (by norm_num), mul_div_mul_comm]
  have hle : -1000 < (1 : ℕ) + (e - e') := by
    refine (hratio ▸ h).lt_exponent ?_
    have hlt : m < 2 ^ 1 * m' := by
      have hupper := hnormal.upper
      have hlower := hnormal'.lower
      omega
    rw [div_lt_iff₀ hdivisor]
    exact_mod_cast hlt
  have hexact : (m * 2 ^ e / (m' * 2 ^ e') : ℚ) = (m * 2 ^ 53 : ℕ) / m' * 2 ^ (e - e' - 53) := by
    rw [hratio, zpow_sub₀ (by norm_num) (e - e')]
    push_cast
    field_simp
  have hbits : 2 ^ 52 ≤ m * 2 ^ 53 / m' := by
    rw [Nat.le_div_iff_mul_le hm']
    exact Nat.mul_le_mul hnormal.lower hnormal'.upper.le
  rw [hexact] at h ⊢
  obtain ⟨n, i, hn, hrounded, hround, hclose⟩ :=
    roundWithAccuracy_close hm' (Represents.ofFraction hm') hbits h
  have hdiv : x / y = .ofModel (.pack (.finite .positive n i hn)) := by
    change Float.ofModel (.pack (.div .binary64 x.toModel.unpack y.toModel.unpack)) = _
    rw [hx, hy, ← hround, UnpackedFloat.div, divCore_normal hnormal hnormal' (by omega)]
    rfl
  exact ⟨_, hdiv ▸ pack hrounded hn, hclose⟩

end HasValue

/-! ## Whole numbers -/

theorem close_self {v : ℚ} (hv : 0 ≤ v) : Close v v := by
  rw [Close, sub_self, abs_zero]
  positivity

theorem close_leading {n : ℕ} (h : 0 < excess n) : Close (leading n) n := by
  have hpos : (0 : ℚ) < (2 ^ excess n : ℕ) := by exact_mod_cast Nat.two_pow_pos _
  have hhalf : 2 * |(roundDiv n (2 ^ excess n) : ℚ) * (2 ^ excess n : ℕ) - n| ≤ (2 ^ excess n : ℕ) := by
    exact_mod_cast abs_roundDiv_sub_le n (Nat.two_pow_pos _)
  have hmany : (2 ^ 52 * (2 ^ excess n : ℕ) : ℚ) ≤ n := by exact_mod_cast two_pow_mul_le h
  rw [Close, leading, Nat.cast_mul]
  linarith

theorem IsDyadic.hasValue {x : Float} {n : ℕ} {e : ℤ} (h : IsDyadic x n e) : HasValue x (n * 2 ^ e) := by
  obtain ⟨hn, hlt, hleast, hmost, hm, hunpack⟩ := h
  refine ⟨_, _, hm, .of_lt hn hlt hleast hmost, hunpack, ?_⟩
  rw [zpow_sub₀ (by norm_num), zpow_natCast]
  push_cast
  field_simp

/-- A whole part beyond 53 bits is the whole number. -/
theorem exponent_nonneg_of_whole {m : ℕ} {e : ℤ} (hm : m < 2 ^ 53) (h : 2 ^ 53 ≤ (⟨false, m, e⟩ : Binary).whole) :
    0 ≤ e := by
  by_contra hneg
  rw [Binary.whole, if_neg hneg] at h
  exact absurd (h.trans (Nat.div_le_self _ _)) (Nat.not_le.mpr hm)

theorem Binary.whole_eq {m : ℕ} {e : ℤ} (h : 0 ≤ e) : ((⟨false, m, e⟩ : Binary).whole : ℚ) = m * 2 ^ e := by
  obtain ⟨k, rfl⟩ := Int.eq_ofNat_of_zero_le h
  have hpow : Nat.pow 2 k = 2 ^ k := rfl
  rw [whole, if_pos h, Int.toNat_natCast, hpow, zpow_natCast]
  push_cast
  rfl

theorem HasValue.ofNat {n : ℕ} (hn : 0 < n) (hlt : n < 2 ^ 64) : ∃ v, HasValue (Float.ofNat n) v ∧ Close v n := by
  by_cases hsmall : n < 2 ^ 53
  · refine ⟨n, ?_, close_self (by positivity)⟩
    simpa using (IsDyadic.ofNat hn hsmall).hasValue
  · have hexcess : 0 < excess n := by
      have hlog : 53 ≤ n.log2 := (Nat.le_log2 hn.ne').mpr (Nat.le_of_not_lt hsmall)
      unfold excess
      omega
    obtain ⟨m, e, hm, hnormal, hunpack, hwhole⟩ := unpack_ofNat_of_excess hexcess hlt
    have hlarge : 2 ^ 53 ≤ (⟨false, m, e⟩ : Binary).whole := by
      rw [hwhole, leading]
      calc 2 ^ 53 = 2 ^ 52 * 2 ^ 1 := rfl
        _ ≤ _ := Nat.mul_le_mul (le_roundDiv_excess hexcess) (Nat.pow_le_pow_right (by decide) hexcess)
    have hvalue := Binary.whole_eq (m := m) (exponent_nonneg_of_whole hnormal.upper hlarge)
    rw [hwhole] at hvalue
    exact ⟨_, ⟨m, e, hm, hnormal, hunpack, rfl⟩, hvalue ▸ close_leading hexcess⟩

/-! ## Parts of a whole -/

theorem between_of_close {n : ℕ} {v : ℚ} (hpos : 0 < n) (hlt : n < 2 ^ 64) (h : Close v n) :
    1 / 2 ≤ v ∧ v ≤ 2 ^ 65 := by
  have hone : (1 : ℚ) ≤ n := by exact_mod_cast hpos
  have hmost : (n : ℚ) ≤ 2 ^ 64 := by exact_mod_cast hlt.le
  have hle := h.le
  have hge := h.ge
  constructor <;> linarith

/-- A part of a whole, after the roundings of both and of their quotient. -/
theorem HasValue.part {k m : ℕ} (hk : 0 < k) (hkm : k ≤ m) (hm : m < 2 ^ 64) :
    ∃ q, HasValue (Float.ofNat k / Float.ofNat m) q ∧ 1 / 2 ^ 67 ≤ q ∧ q ≤ 2 ^ 67 ∧
      q ≤ k / m * ((1 + 1 / 2 ^ 53) ^ 2 / (1 - 1 / 2 ^ 53)) := by
  obtain ⟨b, hb, hkb⟩ := HasValue.ofNat hk (hkm.trans_lt hm)
  obtain ⟨c, hc, hmc⟩ := HasValue.ofNat (hk.trans_le hkm) hm
  obtain ⟨hbleast, hbmost⟩ := between_of_close hk (hkm.trans_lt hm) hkb
  obtain ⟨hcleast, hcmost⟩ := between_of_close (hk.trans_le hkm) hm hmc
  have hleast : 1 / 2 / 2 ^ 65 ≤ b / c := by gcongr
  have hmost : b / c ≤ 2 ^ 65 / (1 / 2) := by gcongr
  obtain ⟨q, hq, hbcq⟩ := hb.div hc (.of_between (by linarith) (by linarith))
  refine ⟨q, hq, by linarith [hbcq.ge], by linarith [hbcq.le], ?_⟩
  have hmpos : (0 : ℚ) < m := by exact_mod_cast hk.trans_le hkm
  calc q ≤ b / c * (1 + 1 / 2 ^ 53) := hbcq.le
    _ ≤ k * (1 + 1 / 2 ^ 53) / (m * (1 - 1 / 2 ^ 53)) * (1 + 1 / 2 ^ 53) := by
      have hnumerator := hkb.le
      have hdenominator := hmc.ge
      have hpositive : 0 < m * (1 - 1 / 2 ^ 53 : ℚ) := mul_pos hmpos (by norm_num)
      gcongr
    _ = k / m * ((1 + 1 / 2 ^ 53) ^ 2 / (1 - 1 / 2 ^ 53)) := by
      rw [mul_div_mul_comm]
      ring

/-! ## Rounding to a whole number -/

theorem floor64_le (x : Float) : floor64 x ≤ 2 ^ 64 - 1 := by
  unfold floor64
  split
  · exact Nat.zero_le _
  · split
    · exact Nat.min_le_right _ _
    · exact le_rfl

theorem floor64_le_whole {x : Float} (h : x.isFinite = true) : floor64 x ≤ (Binary.ofFloat x).whole := by
  unfold floor64
  split
  · exact Nat.zero_le _
  · exact Nat.min_le_left _ _

/-- A representable number does not grow on its way through a float. -/
theorem floor64_ofNat_le {n : ℕ} (h : leading n = n) : floor64 (Float.ofNat n) ≤ n := by
  rcases Nat.eq_zero_or_pos n with rfl | hn
  · decide
  by_cases hlt : n < 2 ^ 64
  · obtain ⟨m, e, hm, hnormal, hunpack, hwhole⟩ := unpack_ofNat hn hlt
    have hle := floor64_le_whole (isFinite_of_unpack hunpack)
    rw [ofFloat_of_unpack hnormal hunpack] at hle
    exact hle.trans (hwhole.trans h).le
  · exact (floor64_le _).trans (by omega)

namespace Binary

variable {m : ℕ} {e : ℤ}

theorem rounded_le : ((⟨false, m, e⟩ : Binary).rounded : ℚ) ≤ m * 2 ^ e + 1 / 2 := by
  unfold rounded
  by_cases he : 0 ≤ e
  · rw [if_pos he, whole_eq he]
    linarith
  · obtain ⟨k, rfl⟩ : ∃ k : ℕ, e = -k := ⟨(-e).toNat, by omega⟩
    have hpow : ∀ i, Nat.pow 2 i = 2 ^ i := fun _ => rfl
    have hk : (-(-(k : ℤ))).toNat = k := by omega
    simp only [if_neg he, hk, hpow]
    refine Nat.cast_div_le.trans (le_of_eq ?_)
    rw [zpow_neg, zpow_natCast]
    push_cast
    field_simp
    ring

theorem leading_rounded (hm : m < 2 ^ 53) :
    leading (⟨false, m, e⟩ : Binary).rounded = (⟨false, m, e⟩ : Binary).rounded := by
  have hpow : ∀ i, Nat.pow 2 i = 2 ^ i := fun _ => rfl
  unfold rounded
  by_cases he : 0 ≤ e
  · have hrepresentable : Representable ((m * 2 ^ e.toNat : ℕ) : ℤ) :=
      ⟨m, e.toNat, by rw [Nat.abs_cast]; exact_mod_cast hm, by push_cast; ring⟩
    rw [if_pos he, whole, if_pos he, hpow]
    exact_mod_cast (isNearest_leading _).eq_self_iff.mpr hrepresentable
  · obtain ⟨k, rfl⟩ : ∃ k : ℕ, e = -(k + 1 : ℕ) := ⟨(-e).toNat - 1, by omega⟩
    have hk : (-(-((k + 1 : ℕ) : ℤ))).toNat = k + 1 := by omega
    simp only [if_neg he, hk, hpow]
    apply leading_of_lt
    apply Nat.div_lt_of_lt_mul
    have hone : 1 ≤ 2 ^ k := Nat.one_le_two_pow
    rw [pow_succ 2 (k + 1), pow_succ 2 k]
    generalize 2 ^ k = p at hone ⊢
    omega

end Binary

theorem HasValue.floor64_round_le {x : Float} {v : ℚ} (h : HasValue x v) :
    (floor64 (Decimal.round x) : ℚ) ≤ v + 1 / 2 := by
  obtain ⟨m, e, hm, hnormal, hunpack, rfl⟩ := h
  have hround : Decimal.round x = Float.ofNat (⟨false, m, e⟩ : Binary).rounded := by
    unfold Decimal.round
    rw [if_pos (isFinite_of_unpack hunpack), ofFloat_of_unpack hnormal hunpack]
    rfl
  rw [hround]
  calc (floor64 (Float.ofNat (⟨false, m, e⟩ : Binary).rounded) : ℚ)
      ≤ (⟨false, m, e⟩ : Binary).rounded := by
        exact_mod_cast floor64_ofNat_le (Binary.leading_rounded hnormal.upper)
    _ ≤ m * 2 ^ e + 1 / 2 := Binary.rounded_le

end FieldBridge.Decimal

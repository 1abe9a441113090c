import FieldBridge.Decimal.Binary
import Mathlib

/-!
# Floats that are exact

A positive number `n * 2 ^ e` is a float as it stands when `n` has at most 53 bits. Counts
and their products with simple fractions are of this form: what is shifted out while they
are rounded are zeros, so that nothing is lost.
-/

namespace FieldBridge.Decimal

open Float.Model (Format UnpackedFloat totalExponent)
open Float.Model.UnpackedFloat

/-- The mantissa and the exponent of a float that uses all of its 53 bits. -/
structure Normal (m : Nat) (e : Int) : Prop where
  lower : 2 ^ 52 ≤ m
  upper : m < 2 ^ 53
  least : -1074 ≤ e
  most : e ≤ 971

theorem log2_mul_two_pow {m : Nat} (hm : m ≠ 0) (k : Nat) : (m * 2 ^ k).log2 = m.log2 + k := by
  induction k with
  | zero => simp
  | succ k ih =>
    have hpos : m * 2 ^ k ≠ 0 := Nat.mul_ne_zero hm (Nat.two_pow_pos k).ne'
    rw [Nat.pow_succ, ← Nat.mul_assoc, Nat.mul_comm _ 2, Nat.log2_two_mul hpos, ih, Nat.add_assoc]

namespace Normal

variable {m : Nat} {e : Int}

theorem ne_zero (h : Normal m e) : m ≠ 0 := by
  intro hm
  have hlower := h.lower
  simp [hm] at hlower

theorem log2 (h : Normal m e) : m.log2 = 52 := by
  rw [Nat.log2_eq_iff h.ne_zero]
  exact ⟨h.lower, h.upper⟩

theorem targetExponent (h : Normal m e) {n : Nat} {i : Int} (hn : (n.log2 : Int) + i = m.log2 + e) :
    Format.binary64.targetExponent (totalExponent n i) = e := by
  have hleast := h.least
  rw [h.log2] at hn
  simp only [Format.targetExponent, totalExponent, Format.mantissaBits, Format.minExponent]
  omega

end Normal

/-! ## Sign, exponent and mantissa -/

section
variable {s : Sign} {m : Nat} {e : Int}

theorem sign_packComponents {spec : Format} (s : Sign) (e : BitVec spec.exponentBits)
    (m : BitVec spec.mantissaBitsWithoutImplicit) :
    Sign.ofBitVec (unpackSign (packComponents spec s e m)) = s := by
  have hsign : unpackSign (packComponents spec s e m) = s.toBitVec := by
    ext i hi
    obtain rfl : i = 0 := by omega
    simp +arith [unpackSign, packComponents, BitVec.getElem_append]
  rw [hsign]
  cases s <;> rfl

theorem toNat_one_append (b : BitVec 52) : (1#1 ++ b).toNat = 2 ^ 52 + b.toNat := by
  rw [BitVec.toNat_append, ← Nat.shiftLeft_add_eq_or_of_lt b.isLt, Nat.shiftLeft_eq]
  rfl

theorem toNat_unpackMantissa (b : BitVec 64) : (@unpackMantissa .binary64 b).toNat = b.toNat % 2 ^ 52 := by
  simp [unpackMantissa]

theorem toNat_unpackExponent (b : BitVec 64) :
    (@unpackExponent .binary64 b).toNat = b.toNat / 2 ^ 52 % 2 ^ 11 := by
  simp [unpackExponent, Nat.shiftRight_eq_div_pow]

theorem unpackSign_eq_zero (b : BitVec 64) :
    @unpackSign .binary64 b = 0#1 ↔ b.toNat < 0x8000000000000000 := by
  have hlt := b.isLt
  have hsign : (@unpackSign .binary64 b).toNat = b.toNat / 2 ^ 63 % 2 := by
    simp [unpackSign, Nat.shiftRight_eq_div_pow]
  rw [← BitVec.toNat_inj, hsign, BitVec.toNat_ofNat]
  omega

theorem pack_normal (h : Normal m e) (hm : 0 < m) : pack .binary64 (.finite s m e hm) =
    packComponents .binary64 s (BitVec.ofNat 11 (e + 1075).toNat) (BitVec.ofNat 52 m) := by
  have hlog := h.log2
  obtain ⟨-, -, hleast, hmost⟩ := h
  have hbias : e + Format.binary64.exponentBias + Format.binary64.mantissaBitsWithoutImplicit = e + 1075 := by
    simp only [Format.exponentBias]
    omega
  unfold pack
  simp only [hbias, hlog]
  rw [if_neg (by omega), if_pos (by rfl)]

theorem unpack_pack (h : Normal m e) (hm : 0 < m) :
    (Float.Model.pack (.finite s m e hm)).unpack = .finite s m e hm := by
  have hpacked := pack_normal (s := s) h hm
  obtain ⟨hlower, hupper, hleast, hmost⟩ := h
  unfold Float.Model.unpack Float.Model.pack
  simp only [hpacked]
  unfold unpack
  simp only [unpackMantissa_packComponents, unpackExponent_packComponents, sign_packComponents]
  rw [if_neg, if_neg]
  · have hmantissa : (1#1 ++ BitVec.ofNat 52 m).toNat = m := by
      rw [toNat_one_append, BitVec.toNat_ofNat]
      omega
    have hexponent : ((BitVec.ofNat 11 (e + 1075).toNat).toNat : Int) -
        (Format.binary64.exponentBias + Format.binary64.mantissaBitsWithoutImplicit) = e := by
      simp only [BitVec.toNat_ofNat, Format.exponentBias]
      omega
    simp only [hmantissa, hexponent]
  · simp [← BitVec.toNat_inj]
    omega
  · simp [← BitVec.toNat_inj]
    omega

theorem isFinite_of_unpack {x : Float} {hm : 0 < m} (hx : x.toModel.unpack = .finite s m e hm) :
    x.isFinite = true := by
  change x.toModel.unpack.isFinite = true
  rw [hx]
  rfl

theorem ofFloat_of_unpack {x : Float} (h : Normal m e) {hm : 0 < m} (hx : x.toModel.unpack = .finite s m e hm) :
    Binary.ofFloat x = ⟨s == .negative, m, e⟩ := by
  have hlower := h.lower
  have hbits : x.toBits.toNat = x.toModel.toBits.toBitVec.toNat := rfl
  unfold Float.Model.unpack unpack at hx
  generalize x.toModel.toBits.toBitVec = b at hx hbits
  have hmantissa := toNat_unpackMantissa b
  have hexponent := toNat_unpackExponent b
  have hsign := unpackSign_eq_zero b
  dsimp only at hx
  split at hx
  · split at hx <;> cases hx
  · split at hx
    -- a mantissa without the leading bit is too small
    · split at hx
      · cases hx
      · injection hx
        omega
    · rename_i hne
      injection hx with hs hm he
      rw [toNat_one_append, hmantissa] at hm
      rw [hexponent] at he
      rw [← BitVec.toNat_inj, hexponent] at hne
      simp [Format.exponentBias] at he hne
      have hnegative : (s == .negative) = decide (0x8000000000000000 ≤ b.toNat) := by
        rw [← hs, Sign.ofBitVec]
        by_cases h : b.toNat < 0x8000000000000000
        · rw [if_pos (hsign.mpr h), decide_eq_false (by omega)]
          rfl
        · rw [if_neg (fun hz => h (hsign.mp hz)), decide_eq_true (by omega)]
          rfl
      unfold Binary.ofFloat
      rw [hbits, hnegative, Binary.mk.injEq]
      refine ⟨rfl, ?_, ?_⟩
      · rw [if_neg hne]
        omega
      · omega

/-! ## Rounding what needs no rounding -/

theorem shiftRight_exact (m k : Nat) : (⟨m * 2 ^ k, false, false⟩ : ExtendedMantissa) >>> k = ⟨m, false, false⟩ := by
  change Nat.repeat ExtendedMantissa.shiftRightOne k _ = _
  induction k generalizing m with
  | zero => simp [Nat.repeat]
  | succ k ih =>
    have hshift : m * 2 ^ (k + 1) = 2 * m * 2 ^ k := by ring
    rw [hshift, Nat.repeat, ih]
    simp [ExtendedMantissa.shiftRightOne]

theorem shiftToTargetExponent_exact {k : Nat} (h : Normal m (e + k)) :
    shiftToTargetExponent .binary64 (m * 2 ^ k) e .exact = (⟨m, false, false⟩, e + k) := by
  have htarget : Format.binary64.targetExponent (totalExponent (m * 2 ^ k) e) = e + k := by
    apply h.targetExponent
    rw [log2_mul_two_pow h.ne_zero]
    push_cast
    ring
  have hamount : (e + k - e).toNat = k := by omega
  unfold shiftToTargetExponent shiftToExponent ExtendedMantissa.ofMantissaAndAccuracy
  simp only [htarget, hamount, shiftRight_exact]

theorem roundWithAccuracy_exact {k : Nat} (h : Normal m (e + k)) (hm : 0 < m) :
    roundWithAccuracy .binary64 s (m * 2 ^ k) e .exact = .finite s m (e + k) hm := by
  have hagain := shiftToTargetExponent_exact (k := 0) (e := e + k) (by simpa using h)
  rw [pow_zero, mul_one, Nat.cast_zero, add_zero] at hagain
  unfold roundWithAccuracy
  simp only [shiftToTargetExponent_exact h, ExtendedMantissa.roundedMantissa, ExtendedMantissa.accuracy,
    Accuracy.roundToNearestEven, hagain, hm.ne', dite_false]

theorem round_exact {k : Nat} (h : Normal (m * 2 ^ k) (e - k)) (hm : 0 < m * 2 ^ k) :
    UnpackedFloat.round .binary64 s m e = .finite s (m * 2 ^ k) (e - k) hm := by
  have hpos : m ≠ 0 := by
    rintro rfl
    simp at hm
  have htarget : Format.binary64.targetExponent (totalExponent m e) = e - k := by
    apply h.targetExponent
    rw [log2_mul_two_pow hpos]
    push_cast
    ring
  have hamount : (e - (e - k)).toNat = k := by omega
  have hround := roundWithAccuracy_exact (s := s) (e := e - k) (k := 0) (by simpa using h) hm
  rw [pow_zero, mul_one, Nat.cast_zero, add_zero] at hround
  unfold UnpackedFloat.round decreaseExponent
  simp only [htarget, hamount, Nat.shiftLeft_eq, hround]

end

/-! ## Dyadic floats -/

/-- How far a number is shifted to fill 53 bits. -/
def slack (n : Nat) : Nat := 52 - n.log2

theorem log2_lt_of_lt {n : Nat} (hn : 0 < n) (hlt : n < 2 ^ 53) : n.log2 < 53 := (Nat.log2_lt hn.ne').mpr hlt

theorem Normal.of_lt {n : Nat} {e : Int} (hn : 0 < n) (hlt : n < 2 ^ 53) (hleast : -1022 ≤ e) (hmost : e ≤ 971) :
    Normal (n * 2 ^ slack n) (e - slack n) := by
  have hlog := log2_lt_of_lt hn hlt
  have hfull : 2 ^ n.log2 * 2 ^ slack n = 2 ^ 52 := by
    rw [← pow_add, slack]
    congr 1
    omega
  have hslack : slack n ≤ 52 := Nat.sub_le _ _
  refine ⟨?_, ?_, by omega, by omega⟩
  · rw [← hfull]
    exact Nat.mul_le_mul_right _ (Nat.log2_self_le hn.ne')
  · rw [pow_succ, ← hfull]
    calc n * 2 ^ slack n < 2 ^ (n.log2 + 1) * 2 ^ slack n :=
          Nat.mul_lt_mul_of_pos_right Nat.lt_log2_self (Nat.two_pow_pos _)
      _ = 2 ^ n.log2 * 2 ^ slack n * 2 := by ring

/-- A float is `n * 2 ^ e`, with at most 53 bits and far from the ends of the range. -/
structure IsDyadic (x : Float) (n : Nat) (e : Int) : Prop where
  pos : 0 < n
  lt : n < 2 ^ 53
  least : -1022 ≤ e
  most : e ≤ 971
  unpack : ∃ hm, x.toModel.unpack = .finite .positive (n * 2 ^ slack n) (e - slack n) hm

theorem isDyadic_pack {n : Nat} {e : Int} (hn : 0 < n) (hlt : n < 2 ^ 53) (hleast : -1022 ≤ e) (hmost : e ≤ 971)
    (hm : 0 < n * 2 ^ slack n) : IsDyadic (.ofModel (.pack (.finite .positive (n * 2 ^ slack n) (e - slack n) hm))) n e :=
  ⟨hn, hlt, hleast, hmost, hm, unpack_pack (.of_lt hn hlt hleast hmost) hm⟩

theorem Binary.whole_shift (negative : Bool) (n k : Nat) (e : Int) :
    (⟨negative, n * 2 ^ k, e - k⟩ : Binary).whole = (⟨negative, n, e⟩ : Binary).whole := by
  have hpow : ∀ i, Nat.pow 2 i = 2 ^ i := fun _ => rfl
  simp only [Binary.whole, hpow]
  by_cases he : 0 ≤ e
  · obtain ⟨i, rfl⟩ := Int.eq_ofNat_of_zero_le he
    by_cases hk : k ≤ i
    · obtain ⟨j, rfl⟩ := Nat.exists_eq_add_of_le hk
      have hpos : ((k + j : Nat) : Int) - k = j := by omega
      simp only [hpos, Int.natCast_nonneg, if_true, Int.toNat_natCast, pow_add, Nat.mul_assoc]
    · obtain ⟨j, rfl⟩ := Nat.exists_eq_add_of_le (Nat.le_of_not_le hk)
      have hneg : ¬(0 : Int) ≤ (i : Int) - (i + j : Nat) := by omega
      have hamount : (-((i : Int) - (i + j : Nat))).toNat = j := by omega
      simp only [hneg, if_false, hamount, Int.natCast_nonneg, if_true, Int.toNat_natCast, pow_add, ← Nat.mul_assoc]
      exact Nat.mul_div_cancel _ (Nat.two_pow_pos j)
  · obtain ⟨i, rfl⟩ : ∃ i : Nat, e = -i := ⟨(-e).toNat, by omega⟩
    have hneg : ¬(0 : Int) ≤ -i - k := by omega
    have hamount : (-(-(i : Int) - k)).toNat = i + k := by omega
    simp only [he, hneg, if_false, hamount, neg_neg, Int.toNat_natCast, pow_add]
    exact Nat.mul_div_mul_right _ _ (Nat.two_pow_pos k)

theorem float_le_iff (x y : Float) : x ≤ y ↔ x.toModel.unpack.le y.toModel.unpack = true := decide_eq_true_iff

theorem float_lt_iff (x y : Float) : x < y ↔ x.toModel.unpack.lt y.toModel.unpack = true := decide_eq_true_iff

/-- What is below a positive float is not above one that is at least as large. -/
theorem not_lt_of_lt {x a b : Float} {m m' : Nat} {e e' : Int} {hm : 0 < m} {hm' : 0 < m'}
    (ha : a.toModel.unpack = .finite .positive m e hm) (hb : b.toModel.unpack = .finite .positive m' e' hm')
    (hle : e < e' ∨ e = e' ∧ m ≤ m') (h : x < a) : ¬b < x := by
  rw [float_lt_iff, ha] at h
  rw [float_lt_iff, hb]
  generalize x.toModel.unpack = u at *
  cases u with
  | notANumber => simp [UnpackedFloat.lt, UnpackedFloat.compare]
  | infinity s =>
    cases s with
    | positive => simp [UnpackedFloat.lt, UnpackedFloat.compare] at h
    | negative => simp [UnpackedFloat.lt, UnpackedFloat.compare]
  | zero s => simp [UnpackedFloat.lt, UnpackedFloat.compare]
  | finite s k i hk =>
    cases s with
    | negative => simp [UnpackedFloat.lt, UnpackedFloat.compare]
    | positive =>
      -- positive floats in this form are ordered by their exponents, and then by their mantissas
      simp only [UnpackedFloat.lt, UnpackedFloat.compare, beq_iff_eq, Option.some.injEq, Ordering.then_eq_lt,
        Int.compare_eq_lt, Int.compare_eq_eq, Nat.compare_eq_lt] at h ⊢
      omega

namespace IsDyadic

variable {x y : Float} {n n' : Nat} {e e' : Int}

theorem mul (hx : IsDyadic x n e) (hy : IsDyadic y n' e') (hlt : n * n' < 2 ^ 53) (hleast : -1022 ≤ e + e')
    (hmost : e + e' ≤ 971) : IsDyadic (x * y) (n * n') (e + e') := by
  obtain ⟨hn, hnlt, -, -, hm, hx⟩ := hx
  obtain ⟨hn', hnlt', -, -, hm', hy⟩ := hy
  have hpos : 0 < n * n' := Nat.mul_pos hn hn'
  have hnormal := Normal.of_lt hpos hlt hleast hmost
  have hlog : n.log2 + n'.log2 ≤ (n * n').log2 := by
    rw [Nat.le_log2 hpos.ne', pow_add]
    exact Nat.mul_le_mul (Nat.log2_self_le hn.ne') (Nat.log2_self_le hn'.ne')
  have hbound := log2_lt_of_lt hpos hlt
  obtain ⟨k, hk⟩ : ∃ k, slack n + slack n' = slack (n * n') + k := by
    refine ⟨slack n + slack n' - slack (n * n'), ?_⟩
    simp only [slack]
    omega
  have hmantissa : n * 2 ^ slack n * (n' * 2 ^ slack n') = n * n' * 2 ^ slack (n * n') * 2 ^ k := by
    calc n * 2 ^ slack n * (n' * 2 ^ slack n') = n * n' * 2 ^ (slack n + slack n') := by ring
      _ = n * n' * 2 ^ slack (n * n') * 2 ^ k := by rw [hk]; ring
  have hexponent : e - slack n + (e' - slack n') + k = e + e' - slack (n * n') := by omega
  have hround := roundWithAccuracy_exact (s := .positive) (e := e - slack n + (e' - slack n'))
    (by rwa [hexponent]) (Nat.pos_of_ne_zero hnormal.ne_zero)
  have hmul : x * y = .ofModel (.pack (.finite .positive (n * n' * 2 ^ slack (n * n')) (e + e' - slack (n * n'))
      (Nat.pos_of_ne_zero hnormal.ne_zero))) := by
    change Float.ofModel (.pack (.mul .binary64 x.toModel.unpack y.toModel.unpack)) = _
    rw [hx, hy, UnpackedFloat.mul, hmantissa]
    change Float.ofModel (.pack (roundWithAccuracy .binary64 .positive _ _ .exact)) = _
    simp only [hround, hexponent]
  rw [hmul]
  exact isDyadic_pack hpos hlt hleast hmost _

theorem toFloat {n : UInt64} (hn : 0 < n.toNat) (hlt : n.toNat < 2 ^ 53) : IsDyadic n.toFloat n.toNat 0 := by
  have hnormal := Normal.of_lt (e := 0) hn hlt (by decide) (by decide)
  have hm := Nat.pos_of_ne_zero hnormal.ne_zero
  have hcompare : compare (n.toNat : Int) 0 = .gt := by
    rw [Int.compare_eq_gt]
    omega
  have hfloat : n.toFloat = .ofModel (.pack (.finite .positive (n.toNat * 2 ^ slack n.toNat) (0 - slack n.toNat) hm)) := by
    change Float.ofModel (.pack (.normalize .binary64 n.toNat 0 .positive)) = _
    unfold UnpackedFloat.normalize
    simp only [hcompare, Int.toNat_natCast, round_exact hnormal hm]
  rw [hfloat]
  exact isDyadic_pack hn hlt (by decide) (by decide) hm

theorem ofNat (hn : 0 < n) (hlt : n < 2 ^ 53) : IsDyadic (Float.ofNat n) n 0 := by
  have hcast : n.toUInt64.toNat = n := by
    simp
    omega
  have hone : IsDyadic (Float.ofBits 0x3FF0000000000000) 1 0 :=
    ⟨by decide, by decide, by decide, by decide, by decide, rfl⟩
  -- a number of at most 53 bits is taken as it is and multiplied by 1
  have heq : Float.ofNat n = n.toUInt64.toFloat * Float.ofBits 0x3FF0000000000000 := by
    change Float.ofScientific n false 0 = _
    unfold Float.ofScientific
    rw [dif_pos ⟨hlt, by decide⟩]
    rfl
  have hfloat : IsDyadic n.toUInt64.toFloat n 0 := by
    have htoFloat := toFloat (n := n.toUInt64) (by rwa [hcast]) (by rwa [hcast])
    rwa [hcast] at htoFloat
  have hmul := hfloat.mul hone (by rwa [mul_one]) (by decide) (by decide)
  rwa [mul_one, add_zero, ← heq] at hmul

theorem floor64 (hx : IsDyadic x n e) : floor64 x = min (⟨false, n, e⟩ : Binary).whole (0x10000000000000000 - 1) := by
  obtain ⟨hn, hlt, hleast, hmost, hm, hunpack⟩ := hx
  have hbinary := ofFloat_of_unpack (.of_lt hn hlt hleast hmost) hunpack
  have hnan : x.isNaN = false := by
    change x.toModel.unpack.isNaN = false
    rw [hunpack]
    rfl
  have hfinite := isFinite_of_unpack hunpack
  have hpos : ¬x ≤ 0.0 := by
    have hzero : (0.0 : Float).toModel.unpack = .zero .positive := by rfl
    rw [float_le_iff, hunpack, hzero]
    simp [UnpackedFloat.le, UnpackedFloat.compare]
  unfold Decimal.floor64
  rw [hbinary, Binary.whole_shift, hnan, hfinite, decide_eq_false hpos]
  rfl

end IsDyadic

end FieldBridge.Decimal

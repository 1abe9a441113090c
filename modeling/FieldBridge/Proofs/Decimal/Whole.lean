import FieldBridge.Decimal.Nearest
import FieldBridge.Proofs.Decimal.Dyadic
import FieldBridge.Proofs.Decimal.Places

/-!
# Whole numbers as floats

A whole number that is read as a float keeps its first 53 bits and is rounded to them. What
comes back is the representable number that is nearest to it, and of two that are equally
near the even one.
-/

namespace FieldBridge.Decimal

open Float.Model (Format UnpackedFloat totalExponent)
open Float.Model.UnpackedFloat

/-- A whole number of at most 53 bits, with any number of zeros after them. -/
def Representable (n : ℤ) : Prop := ∃ (m : ℤ) (k : ℕ), |m| < 2 ^ 53 ∧ n = m * 2 ^ k

/-- No representable number is nearer to `n` than `r` is. Of two that are equally near it is the
one that is an even multiple of the gap between them. -/
structure IsNearest (n r : ℤ) : Prop where
  representable : Representable r
  near : ∀ m, Representable m → |r - n| ≤ |m - n|
  even : ∀ m, Representable m → |r - n| = |m - n| → m ≠ r → 2 * (m - r) ∣ r

theorem Representable.neg {n : ℤ} (h : Representable n) : Representable (-n) := by
  obtain ⟨m, k, hm, rfl⟩ := h
  exact ⟨-m, k, by rwa [abs_neg], by ring⟩

namespace IsNearest

variable {n r r' : ℤ}

theorem unique (h : IsNearest n r) (h' : IsNearest n r') : r = r' := by
  have hdist : |r - n| = |r' - n| := le_antisymm (h.near r' h'.representable) (h'.near r h.representable)
  by_contra hne
  have heven := h.even r' h'.representable hdist (Ne.symm hne)
  have heven' := h'.even r h.representable hdist.symm hne
  -- both are even multiples of their distance, and so is the distance itself
  have hgap : 2 * (r' - r) ∣ r' - r := by
    refine dvd_sub ?_ heven
    rwa [← neg_sub r r', mul_neg, neg_dvd]
  obtain ⟨c, hc⟩ := hgap
  have hpos : r' - r ≠ 0 := sub_ne_zero.mpr (Ne.symm hne)
  have hone : 2 * c = 1 := mul_left_cancel₀ hpos (by rw [mul_one]; linarith)
  omega

theorem neg (h : IsNearest n r) : IsNearest (-n) (-r) := by
  have hdist : ∀ m : ℤ, |(-m) - (-n)| = |m - n| := fun m => by rw [neg_sub_neg, abs_sub_comm]
  refine ⟨h.representable.neg, fun m hm => ?_, fun m hm heq hne => ?_⟩
  · have hnear := h.near (-m) hm.neg
    rwa [← hdist, ← hdist (-m), neg_neg] at hnear
  · have hback : |r - n| = |-m - n| := by rw [← hdist, heq, ← hdist (-m), neg_neg]
    have heven := h.even (-m) hm.neg hback (by omega)
    rw [dvd_neg]
    rwa [show 2 * (m - -r) = -(2 * (-m - r)) by ring, neg_dvd]

theorem eq_self_iff (h : IsNearest n r) : r = n ↔ Representable n := by
  constructor
  · rintro rfl
    exact h.representable
  · intro hn
    have hnear := h.near n hn
    rwa [sub_self, abs_zero, abs_nonpos_iff, sub_eq_zero] at hnear

end IsNearest

/-! ## The nearest multiple -/

section
variable (n : ℕ) {d : ℕ}

theorem abs_roundDiv_sub_le (hd : 0 < d) : 2 * |(roundDiv n d : ℤ) * d - n| ≤ d := by
  obtain ⟨hle, hge⟩ := roundDiv_near n hd
  have hcomm := Nat.mul_comm d (roundDiv n d)
  zify at hle hge hcomm
  rcases abs_cases ((roundDiv n d : ℤ) * d - n) with ⟨h, -⟩ | ⟨h, -⟩ <;> linarith

/-- A quotient exactly between two whole numbers goes to the even one. -/
theorem even_roundDiv (hd : 0 < d) (h : 2 * |(roundDiv n d : ℤ) * d - n| = d) : 2 ∣ (roundDiv n d : ℤ) := by
  have hn : d * (n / d) + n % d = n := Nat.div_add_mod n d
  have hr : n % d < d := Nat.mod_lt n hd
  have hup : d * (n / d + 1) = d * (n / d) + d := Nat.mul_succ d (n / d)
  have htie : 2 * (d * roundDiv n d) = 2 * n + d ∨ 2 * n = 2 * (d * roundDiv n d) + d := by
    have hcomm := Nat.mul_comm d (roundDiv n d)
    zify at hcomm ⊢
    rcases abs_cases ((roundDiv n d : ℤ) * d - n) with ⟨habs, -⟩ | ⟨habs, -⟩ <;> omega
  have heven : roundDiv n d % 2 = 0 := by
    unfold roundDiv at htie ⊢
    dsimp only at htie ⊢
    split_ifs at htie ⊢ <;> omega
  omega

theorem le_abs_add_abs (i j : ℤ) : |j - i| * d ≤ |i * d - n| + |j * d - n| := by
  calc |j - i| * d = |j * d - i * d| := by rw [← sub_mul, abs_mul, Nat.abs_cast]
    _ ≤ |j * d - n| + |n - i * d| := abs_sub_le _ _ _
    _ = |i * d - n| + |j * d - n| := by rw [abs_sub_comm (n : ℤ), add_comm]

/-- No multiple is nearer. One that is as near is the next one, and then the quotient is even. -/
theorem roundDiv_nearest (hd : 0 < d) {j : ℤ} (hj : j ≠ roundDiv n d) :
    |(roundDiv n d : ℤ) * d - n| ≤ |j * d - n| ∧
      (|(roundDiv n d : ℤ) * d - n| = |j * d - n| → |j - roundDiv n d| = 1 ∧ 2 ∣ (roundDiv n d : ℤ)) := by
  have hhalf := abs_roundDiv_sub_le n hd
  have hapart := le_abs_add_abs n (d := d) (roundDiv n d) j
  have hone : 1 ≤ |j - roundDiv n d| := Int.one_le_abs (sub_ne_zero.mpr hj)
  have hpos : (0 : ℤ) < d := by exact_mod_cast hd
  have hgap : (d : ℤ) ≤ |j - roundDiv n d| * d := le_mul_of_one_le_left hpos.le hone
  refine ⟨by linarith, fun heq => ⟨?_, even_roundDiv n hd (by linarith)⟩⟩
  refine le_antisymm (le_of_mul_le_mul_right ?_ hpos) hone
  rw [one_mul]
  linarith

end

/-! ## The first 53 bits -/

/-- How many bits a number has beyond the first 53. -/
def excess (n : ℕ) : ℕ := n.log2 - 52

/-- A number rounded to its first 53 bits. -/
def leading (n : ℕ) : ℕ := roundDiv n (2 ^ excess n) * 2 ^ excess n

section
variable {n : ℕ}

theorem leading_of_lt (hn : n < 2 ^ 53) : leading n = n := by
  have hexcess : excess n = 0 := by
    rcases Nat.eq_zero_or_pos n with rfl | hpos
    · rfl
    · have := log2_lt_of_lt hpos hn
      unfold excess
      omega
  have hmod : n % 1 = 0 := Nat.mod_one n
  simp [leading, hexcess, roundDiv, hmod]

theorem le_roundDiv (n d : ℕ) : n / d ≤ roundDiv n d := by
  unfold roundDiv
  dsimp only
  split_ifs <;> omega

theorem roundDiv_le (n d : ℕ) : roundDiv n d ≤ n / d + 1 := by
  unfold roundDiv
  dsimp only
  split_ifs <;> omega

theorem roundDiv_excess_le (n : ℕ) : roundDiv n (2 ^ excess n) ≤ 2 ^ 53 := by
  have hlt : n < 2 ^ 53 * 2 ^ excess n := by
    rw [← pow_add]
    exact Nat.lt_log2_self.trans_le (Nat.pow_le_pow_right (by decide) (by unfold excess; omega))
  have hdiv := Nat.div_lt_of_lt_mul (Nat.mul_comm _ _ ▸ hlt)
  have hle := roundDiv_le n (2 ^ excess n)
  omega

theorem two_pow_mul_le (h : 0 < excess n) : 2 ^ 52 * 2 ^ excess n ≤ n := by
  have hlog : 52 + excess n = n.log2 := by
    unfold excess at *
    omega
  rw [← pow_add, hlog]
  exact Nat.log2_self_le (by rintro rfl; exact absurd h (by decide))

theorem le_roundDiv_excess (h : 0 < excess n) : 2 ^ 52 ≤ roundDiv n (2 ^ excess n) :=
  ((Nat.le_div_iff_mul_le (Nat.two_pow_pos _)).mpr (two_pow_mul_le h)).trans (le_roundDiv _ _)

theorem representable_leading (n : ℕ) : Representable (leading n) := by
  rcases (roundDiv_excess_le n).lt_or_eq with hlt | heq
  · exact ⟨roundDiv n (2 ^ excess n), excess n, by rw [Nat.abs_cast]; exact_mod_cast hlt, by simp [leading]⟩
  · exact ⟨1, 53 + excess n, by norm_num, by rw [leading, heq]; push_cast; ring⟩

/-- A representable number that is no multiple of the last place is too small to be near. -/
theorem leading_lt_of_not_dvd {m : ℤ} (hm : Representable m) (hdvd : ¬((2 ^ excess n : ℕ) : ℤ) ∣ m) :
    |(leading n : ℤ) - n| < |m - n| := by
  obtain ⟨a, i, ha, rfl⟩ := hm
  have hi : i < excess n := by
    by_contra hle
    refine hdvd (Dvd.dvd.mul_left ?_ a)
    exact_mod_cast pow_dvd_pow 2 (Nat.le_of_not_lt hle)
  have hn : (2 ^ 52 * 2 ^ excess n : ℤ) ≤ n := by exact_mod_cast two_pow_mul_le (Nat.zero_lt_of_lt hi)
  have hsmall : a * 2 ^ i < 2 ^ 52 * 2 ^ excess n := by
    calc a * 2 ^ i < 2 ^ 53 * 2 ^ i := by
          gcongr
          exact (abs_lt.mp ha).2
      _ = 2 ^ 52 * 2 ^ (i + 1) := by ring
      _ ≤ 2 ^ 52 * 2 ^ excess n := by gcongr <;> omega
  have hfirst : |(leading n : ℤ) - n| ≤ |(2 ^ 52 : ℤ) * (2 ^ excess n : ℕ) - n| := by
    by_cases heq : (2 ^ 52 : ℤ) = roundDiv n (2 ^ excess n)
    · rw [heq, leading, Nat.cast_mul]
    · rw [leading, Nat.cast_mul]
      exact (roundDiv_nearest n (Nat.two_pow_pos _) heq).1
  refine hfirst.trans_lt ?_
  push_cast
  rw [abs_of_nonpos (by linarith), abs_of_neg (by linarith)]
  linarith

theorem isNearest_leading (n : ℕ) : IsNearest n (leading n) := by
  have hpos : 0 < 2 ^ excess n := Nat.two_pow_pos _
  have hleading : (leading n : ℤ) = roundDiv n (2 ^ excess n) * (2 ^ excess n : ℕ) := by rw [leading, Nat.cast_mul]
  refine ⟨representable_leading n, fun m hm => ?_, fun m hm heq hne => ?_⟩
  · by_cases hdvd : ((2 ^ excess n : ℕ) : ℤ) ∣ m
    · obtain ⟨j, rfl⟩ := hdvd
      by_cases hj : j = roundDiv n (2 ^ excess n)
      · rw [hj, mul_comm, hleading]
      · rw [mul_comm, hleading]
        exact (roundDiv_nearest n hpos hj).1
    · exact (leading_lt_of_not_dvd hm hdvd).le
  · by_cases hdvd : ((2 ^ excess n : ℕ) : ℤ) ∣ m
    · obtain ⟨j, rfl⟩ := hdvd
      have hj : j ≠ roundDiv n (2 ^ excess n) := by
        rintro rfl
        exact hne (by rw [hleading, mul_comm])
      rw [mul_comm, hleading] at heq
      obtain ⟨hone, heven⟩ := (roundDiv_nearest n hpos hj).2 heq
      rw [hleading, mul_comm _ j, ← sub_mul, ← mul_assoc]
      refine mul_dvd_mul_right ?_ _
      rcases (abs_eq (by norm_num)).mp hone with h | h <;> rw [h] <;> simpa using heven
    · exact absurd heq (leading_lt_of_not_dvd hm hdvd).ne

end

/-! ## What is shifted out -/

/-- The two bits kept of what is shifted out tell how it compares with a half. -/
structure Represents (em : ExtendedMantissa) (n d : ℕ) : Prop where
  quotient : em.mantissa = n / d
  round : em.roundBit = true ↔ d ≤ 2 * (n % d)
  sticky : em.stickyBit = true ↔ n % d ≠ 0 ∧ 2 * (n % d) ≠ d

namespace Represents

variable {em : ExtendedMantissa} {n d : ℕ}

theorem whole (n : ℕ) : Represents (.ofMantissaAndAccuracy n .exact) n 1 := by
  refine ⟨by simp [ExtendedMantissa.ofMantissaAndAccuracy], ?_, ?_⟩ <;>
    simp [ExtendedMantissa.ofMantissaAndAccuracy, Nat.mod_one]

theorem shiftRightOne (hd : 0 < d) (h : Represents em n d) : Represents em.shiftRightOne n (d * 2) := by
  have hr : n % d < d := Nat.mod_lt n hd
  have hmod : n % (d * 2) = n % d + d * (n / d % 2) := Nat.mod_mul
  obtain ⟨hquotient, hround, hsticky⟩ := h
  refine ⟨?_, ?_, ?_⟩
  · simp only [ExtendedMantissa.shiftRightOne, hquotient, Nat.div_div_eq_div_mul]
  all_goals
    simp only [ExtendedMantissa.shiftRightOne, hquotient, bne_iff_ne, Bool.or_eq_true, hround, hsticky, hmod]
    rcases Nat.mod_two_eq_zero_or_one (n / d) with hbit | hbit <;> rw [hbit] <;> omega

theorem shifted (hd : 0 < d) (h : Represents em n d) (k : ℕ) : Represents (em >>> k) n (d * 2 ^ k) := by
  change Represents (Nat.repeat ExtendedMantissa.shiftRightOne k em) n _
  induction k with
  | zero => rwa [pow_zero, mul_one]
  | succ k ih =>
    rw [pow_succ, ← mul_assoc]
    exact ih.shiftRightOne (Nat.mul_pos hd (Nat.two_pow_pos k))

theorem shiftRight (n k : ℕ) : Represents (ExtendedMantissa.ofMantissaAndAccuracy n .exact >>> k) n (2 ^ k) := by
  have hshifted := (whole n).shifted Nat.one_pos k
  rwa [one_mul] at hshifted

theorem roundedMantissa (hd : 0 < d) (h : Represents em n d) : em.roundedMantissa = roundDiv n d := by
  obtain ⟨m, round, sticky⟩ := em
  obtain ⟨rfl, hround, hsticky⟩ := h
  unfold ExtendedMantissa.roundedMantissa roundDiv
  dsimp only at hround hsticky ⊢
  cases round <;> cases sticky <;>
    simp only [ExtendedMantissa.accuracy, Accuracy.roundToNearestEven] <;> grind

end Represents

/-! ## The float of a whole number -/

/-- The first rounding may carry into a further bit, and then `j` zeros go in a second one. -/
theorem roundWithAccuracy_shifted {s : Sign} {n m i j : ℕ} {e : ℤ} {accuracy : Accuracy} (h : Normal m (e + i + j))
    (hm : 0 < m) (htarget : Format.binary64.targetExponent (totalExponent n e) = e + i)
    (hround : (ExtendedMantissa.ofMantissaAndAccuracy n accuracy >>> i).roundedMantissa = m * 2 ^ j) :
    roundWithAccuracy .binary64 s n e accuracy = .finite s m (e + i + j) hm := by
  have hamount : (e + i - e).toNat = i := by omega
  have hfirst : shiftToTargetExponent .binary64 n e accuracy =
      (ExtendedMantissa.ofMantissaAndAccuracy n accuracy >>> i, e + i) := by
    unfold shiftToTargetExponent shiftToExponent
    simp only [htarget, hamount]
  unfold roundWithAccuracy
  simp only [hfirst, hround, shiftToTargetExponent_exact h, hm.ne', dite_false]

theorem roundWithAccuracy_normal {s : Sign} {n m i j : ℕ} {e : ℤ} (h : Normal m (e + i + j)) (hm : 0 < m)
    (htarget : Format.binary64.targetExponent (totalExponent n e) = e + i)
    (hround : roundDiv n (2 ^ i) = m * 2 ^ j) :
    roundWithAccuracy .binary64 s n e .exact = .finite s m (e + i + j) hm :=
  roundWithAccuracy_shifted h hm htarget
    (((Represents.shiftRight n i).roundedMantissa (Nat.two_pow_pos i)).trans hround)

theorem roundDiv_mul_right (n d : ℕ) {c : ℕ} (hc : 0 < c) : roundDiv (n * c) (d * c) = roundDiv n d := by
  have hlt : ∀ a b : ℕ, 2 * (a * c) < b * c ↔ 2 * a < b := fun a b => by
    rw [← Nat.mul_assoc, Nat.mul_lt_mul_right hc]
  have hgt : ∀ a b : ℕ, b * c < 2 * (a * c) ↔ b < 2 * a := fun a b => by
    rw [← Nat.mul_assoc, Nat.mul_lt_mul_right hc]
  simp only [roundDiv, Nat.mul_div_mul_right _ _ hc, Nat.mul_mod_mul_right, hlt, hgt]

/-- A carry leaves a power of two. -/
theorem roundDiv_excess_eq {n : ℕ} (h : 0 < excess n) :
    ∃ m j, 2 ^ 52 ≤ m ∧ m < 2 ^ 53 ∧ j ≤ 1 ∧ roundDiv n (2 ^ excess n) = m * 2 ^ j := by
  rcases (roundDiv_excess_le n).lt_or_eq with hlt | heq
  · exact ⟨_, 0, le_roundDiv_excess h, hlt, by decide, by simp⟩
  · exact ⟨2 ^ 52, 1, le_rfl, by decide, le_rfl, by rw [heq]; rfl⟩

theorem ofScientific_whole {n : ℕ} (hn : n ≠ 0) :
    UnpackedFloat.ofScientific .binary64 n 0 = roundWithAccuracy .binary64 .positive (n * 2 ^ 53) (-53) .exact := by
  have hleast : ¬(0 : ℤ) < -(2 ^ Format.binary64.exponentBits + (n.log2 : ℤ)) := by
    have hpow : (0 : ℤ) ≤ 2 ^ Format.binary64.exponentBits := by positivity
    omega
  have hmul : ∀ (m m' : ℕ) (e e' : ℤ) (hm : 0 < m) (hm' : 0 < m'),
      UnpackedFloat.mul .binary64 (.finite .positive m e hm) (.finite .positive m' e' hm') =
        roundWithAccuracy .binary64 .positive (m * m') (e + e') .exact := fun _ _ _ _ _ _ => rfl
  unfold UnpackedFloat.ofScientific
  rw [dif_neg hn, if_neg (by decide), if_neg hleast, if_pos le_rfl, hmul, Nat.shiftLeft_eq]
  simp only [Int.toNat_zero, pow_zero, mul_one, add_zero]
  rfl

theorem unpack_ofNat_of_excess {n : ℕ} (h : 0 < excess n) (hlt : n < 2 ^ 64) :
    ∃ m e hm, Normal m e ∧ (Float.ofNat n).toModel.unpack = .finite .positive m e hm ∧
      (⟨false, m, e⟩ : Binary).whole = leading n := by
  obtain ⟨m, j, hlower, hupper, hj, hround⟩ := roundDiv_excess_eq h
  have hne : n ≠ 0 := by
    rintro rfl
    exact absurd h (by decide)
  have hlog : n.log2 < 64 := (Nat.log2_lt hne).mpr hlt
  have hlarge : 2 ^ 53 ≤ n := by
    calc 2 ^ 53 ≤ 2 ^ 52 * 2 ^ excess n := by
          rw [← pow_add]
          exact Nat.pow_le_pow_right (by decide) (by omega)
      _ ≤ n := two_pow_mul_le h
  have hm : 0 < m := by omega
  have hnormal : Normal m (-53 + (53 + excess n : ℕ) + j) := ⟨hlower, hupper, by omega, by unfold excess; omega⟩
  have hfloat : Float.ofNat n =
      .ofModel (.pack (.finite .positive m (-53 + (53 + excess n : ℕ) + j) hm)) := by
    change Float.ofScientific n false 0 = _
    unfold Float.ofScientific
    rw [dif_neg (by omega)]
    change Float.ofModel (.pack (UnpackedFloat.ofScientific .binary64 n 0)) = _
    rw [ofScientific_whole hne, roundWithAccuracy_normal hnormal hm]
    · simp only [Format.targetExponent, totalExponent, Format.mantissaBits, Format.minExponent, log2_mul_two_pow hne]
      unfold excess at *
      omega
    · rw [Nat.add_comm 53, pow_add, roundDiv_mul_right _ _ (Nat.two_pow_pos 53), hround]
  refine ⟨m, _, hm, hnormal, by rw [hfloat]; exact unpack_pack hnormal hm, ?_⟩
  have hexponent : (-53 + (53 + excess n : ℕ) + j : ℤ) = (excess n + j : ℕ) := by push_cast; ring
  have hpow : ∀ i, Nat.pow 2 i = 2 ^ i := fun _ => rfl
  rw [hexponent, Binary.whole, if_pos (Int.natCast_nonneg _), Int.toNat_natCast, hpow, leading, hround]
  ring

theorem unpack_ofNat {n : ℕ} (hn : 0 < n) (hlt : n < 2 ^ 64) :
    ∃ m e hm, Normal m e ∧ (Float.ofNat n).toModel.unpack = .finite .positive m e hm ∧
      (⟨false, m, e⟩ : Binary).whole = leading n := by
  by_cases hsmall : n < 2 ^ 53
  · obtain ⟨hm, hunpack⟩ := (IsDyadic.ofNat hn hsmall).unpack
    refine ⟨_, _, hm, .of_lt hn hsmall (by decide) (by decide), hunpack, ?_⟩
    rw [Binary.whole_shift, leading_of_lt hsmall]
    exact Nat.mul_one n
  · refine unpack_ofNat_of_excess ?_ hlt
    have hlog : 53 ≤ n.log2 := (Nat.le_log2 hn.ne').mpr (Nat.le_of_not_lt hsmall)
    unfold excess
    omega

theorem nearest_whole {n : ℕ} (hn : 0 < n) (hlt : n < 2 ^ 64) : nearest ⟨n, 0⟩ = Float.ofNat n := by
  have hcount : digitCount n ≤ 20 := (Nat.length_toDigits_le_iff (by decide) (by decide)).mpr (by omega)
  unfold nearest
  dsimp only
  rw [if_neg hn.ne', if_neg (by omega), if_neg (by omega), if_pos le_rfl]
  rfl

/-! ## The whole part of the float -/

section
variable {x : Float} {s : Sign} {m : ℕ} {e : ℤ} {hm : 0 < m}

theorem unpack_neg (h : Normal m e) (hx : x.toModel.unpack = .finite .positive m e hm) :
    (-x).toModel.unpack = .finite .negative m e hm := by
  change (Float.Model.pack x.toModel.unpack.neg).unpack = _
  rw [hx]
  exact unpack_pack h hm

theorem truncate_of_unpack (h : Normal m e) (hx : x.toModel.unpack = .finite s m e hm) :
    truncate x = if s == .negative then -((⟨false, m, e⟩ : Binary).whole : ℤ) else (⟨false, m, e⟩ : Binary).whole := by
  unfold truncate
  rw [ofFloat_of_unpack h hx]
  rfl

end

/-- The float that the digits of a whole number spell out, with its sign. -/
def wholeFloat (n : ℤ) : Float := if n < 0 then -nearest ⟨n.natAbs, 0⟩ else nearest ⟨n.natAbs, 0⟩

/-- **Read as a float, a whole number becomes the nearest representable one.** -/
theorem wholeFloat_nearest {n : ℤ} (hn : n.natAbs < 2 ^ 64) :
    (wholeFloat n).isFinite = true ∧ IsNearest n (truncate (wholeFloat n)) := by
  rcases Nat.eq_zero_or_pos n.natAbs with hzero | hpos
  · obtain rfl : n = 0 := Int.natAbs_eq_zero.mp hzero
    have hfloat : wholeFloat 0 = 0.0 := by rfl
    have htruncate : truncate 0.0 = 0 := by decide +kernel
    have hnearest := isNearest_leading 0
    rw [leading_of_lt (by decide)] at hnearest
    rw [hfloat, htruncate]
    exact ⟨by decide, hnearest⟩
  · unfold wholeFloat
    rw [nearest_whole hpos hn]
    obtain ⟨m, e, hm, hnormal, hunpack, hwhole⟩ := unpack_ofNat hpos hn
    have hleading := isNearest_leading n.natAbs
    by_cases hneg : n < 0
    · have hunpack := unpack_neg hnormal hunpack
      have hcast : (n.natAbs : ℤ) = -n := Int.ofNat_natAbs_of_nonpos hneg.le
      rw [if_pos hneg, truncate_of_unpack hnormal hunpack, hwhole]
      refine ⟨isFinite_of_unpack hunpack, ?_⟩
      rw [hcast] at hleading
      simpa using hleading.neg
    · have hcast : (n.natAbs : ℤ) = n := Int.natAbs_of_nonneg (Int.not_lt.mp hneg)
      rw [if_neg hneg, truncate_of_unpack hnormal hunpack, hwhole]
      refine ⟨isFinite_of_unpack hunpack, ?_⟩
      rw [hcast] at hleading
      exact hleading

/-! ## What 64 bits make of it -/

/-- The largest number of 64 bits is not representable, but the nearest number is beyond it and cut back to it. -/
theorem clampInt64_eq_iff {n r : ℤ} (hlo : -2 ^ 63 ≤ n) (hhi : n < 2 ^ 63) (h : IsNearest n r) :
    clampInt64 r = n ↔ Representable n ∨ n = 2 ^ 63 - 1 := by
  constructor
  · intro hclamp
    by_cases hlow : r < -2 ^ 63
    · obtain rfl : n = -2 ^ 63 := by
        unfold clampInt64 at hclamp
        omega
      exact .inl ⟨-1, 63, by norm_num, by norm_num⟩
    · by_cases hhigh : 2 ^ 63 ≤ r
      · right
        unfold clampInt64 at hclamp
        omega
      · left
        obtain rfl : r = n := by
          unfold clampInt64 at hclamp
          omega
        exact h.representable
  · rintro (hn | rfl)
    · rw [h.eq_self_iff.mpr hn]
      unfold clampInt64
      omega
    · have hnext : Representable (2 ^ 63) := ⟨1, 63, by norm_num, by norm_num⟩
      have hnear := h.near _ hnext
      -- one below the largest is as near as one above it, but no even multiple of the gap
      have hbelow : r ≠ 2 ^ 63 - 2 := by
        rintro rfl
        have heven := h.even _ hnext (by norm_num) (by norm_num)
        norm_num at heven
      norm_num [abs_le] at hnear
      unfold clampInt64
      omega

end FieldBridge.Decimal

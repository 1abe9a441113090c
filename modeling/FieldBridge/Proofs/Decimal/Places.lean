import FieldBridge.Decimal.Places
import FieldBridge.Proofs.Decimal.Text

/-!
# Floats to a number of places

What is written for a finite float is its sign and then, of all decimals with that many
places, the one nearest to the float.
-/

namespace FieldBridge.Decimal

/-- The quotient is off by at most a half. -/
theorem roundDiv_near (n : ℕ) {d : ℕ} (hd : 0 < d) :
    2 * (d * roundDiv n d) ≤ 2 * n + d ∧ 2 * n ≤ 2 * (d * roundDiv n d) + d := by
  have hn : d * (n / d) + n % d = n := Nat.div_add_mod n d
  have hr : n % d < d := Nat.mod_lt n hd
  have hup : d * (n / d + 1) = d * (n / d) + d := Nat.mul_succ d (n / d)
  unfold roundDiv
  dsimp only
  split_ifs <;> omega

theorem Binary.scaled_near (b : Binary) (places : ℕ) :
    |(b.scaled places : ℚ) - b.magnitude * 10 ^ places| ≤ 1 / 2 := by
  have hd : 0 < 2 ^ (-b.exponent).toNat := Nat.two_pow_pos _
  obtain ⟨hle, hge⟩ := roundDiv_near (b.mantissa * 10 ^ places * 2 ^ b.exponent.toNat) hd
  change 2 * (2 ^ (-b.exponent).toNat * b.scaled places) ≤ _ at hle
  change _ ≤ 2 * (2 ^ (-b.exponent).toNat * b.scaled places) + _ at hge
  have hn : ((b.mantissa * 10 ^ places * 2 ^ b.exponent.toNat : ℕ) : ℚ) =
      b.magnitude * 10 ^ places * (2 ^ (-b.exponent).toNat : ℕ) := by
    push_cast
    rw [magnitude, ← zpow_eq_div 2 (by norm_num) b.exponent]
    ring
  have hpos : (0 : ℚ) < (2 ^ (-b.exponent).toNat : ℕ) := by exact_mod_cast hd
  generalize 2 ^ (-b.exponent).toNat = d at *
  have hleq : (2 : ℚ) * (d * b.scaled places) ≤ 2 * (b.magnitude * 10 ^ places * d) + d := by
    rw [← hn]
    exact_mod_cast hle
  have hgeq : (2 : ℚ) * (b.magnitude * 10 ^ places * d) ≤ 2 * (d * b.scaled places) + d := by
    rw [← hn]
    exact_mod_cast hge
  rw [abs_le]
  constructor <;> nlinarith

/-! ## The text of a whole number of units -/

theorem isDigit_of_mem_padLeft {width : ℕ} {cs : List Char} (hcs : ∀ c ∈ cs, c.isDigit = true) :
    ∀ c ∈ padLeft width cs, c.isDigit = true :=
  List.forall_mem_append.mpr ⟨fun _ => isDigit_of_mem_zeros, hcs⟩

theorem ofDigits_padLeft (width : ℕ) (cs : List Char) : Text.ofDigits (padLeft width cs) = Text.ofDigits cs := by
  rw [padLeft, ofDigits_append, ofDigits_zeros, Nat.mul_zero, Nat.zero_add]

theorem le_length_padLeft (width : ℕ) (cs : List Char) : width ≤ (padLeft width cs).length := by
  rw [padLeft, List.length_append, List.length_replicate]
  omega

/-- A whole number of units is read back with the places it was written to. -/
theorem decimal?_placed (places n : ℕ) : decimal? (placed places n).toList = some ⟨n, -places⟩ := by
  have hlen := le_length_padLeft (places + 1) (Nat.toDigits 10 n)
  have hds : ∀ c ∈ padLeft (places + 1) (Nat.toDigits 10 n), c.isDigit = true :=
    isDigit_of_mem_padLeft fun _ => isDigit_of_mem_toDigits
  have hof : Text.ofDigits (padLeft (places + 1) (Nat.toDigits 10 n)) = n := by
    rw [ofDigits_padLeft, ofDigits_toDigits]
  unfold placed
  generalize padLeft (places + 1) (Nat.toDigits 10 n) = ds at *
  have hwhole : ds.take (ds.length - places) ≠ [] := by
    rw [ne_eq, List.take_eq_nil_iff, ← List.length_eq_zero_iff]
    omega
  have htake : ∀ c ∈ ds.take (ds.length - places), c.isDigit = true := fun c hc => hds c (List.mem_of_mem_take hc)
  have hdrop : ∀ c ∈ ds.drop (ds.length - places), c.isDigit = true := fun c hc => hds c (List.mem_of_mem_drop hc)
  by_cases hp : places = 0
  · subst hp
    rw [Nat.sub_zero, List.take_length] at htake hwhole
    have hread := decimal?_whole hwhole htake (stopsAt_nil _) (by simp)
    simpa [hof, exponent?] using hread
  · have hfraction : (ds.drop (ds.length - places)).length = places := by
      rw [List.length_drop]
      omega
    have hread := decimal?_point hwhole htake hdrop (stopsAt_nil _)
    rw [List.take_append_drop, hof, hfraction, List.append_nil] at hread
    simpa [hp, exponent?] using hread

/-! ## The text of a float -/

/-- A text of a float: its sign, and a decimal of so many places that no other such decimal
is nearer to the float. -/
def Rounds (places : ℕ) (x : Float) (s : String) : Prop :=
  ∃ (body : String) (d : Exact), s = (if (Binary.ofFloat x).negative then "-" else "") ++ body ∧
    decimal? body.toList = some d ∧ d.exponent = -places ∧
    |d.value - (Binary.ofFloat x).magnitude| ≤ 10 ^ (-places : ℤ) / 2

theorem isNaN_of_isFinite {x : Float} (hx : x.isFinite = true) : x.isNaN = false := by
  change x.toModel.unpack.isFinite = true at hx
  change x.toModel.unpack.isNaN = false
  generalize x.toModel.unpack = u at *
  cases u <;> first | rfl | cases hx

theorem fixed_rounds (places : ℕ) {x : Float} (hx : x.isFinite = true) : Rounds places x (fixed places x) := by
  refine ⟨placed places ((Binary.ofFloat x).scaled places), ⟨_, -places⟩, ?_, decimal?_placed _ _, rfl, ?_⟩
  · simp only [fixed, isNaN_of_isFinite hx, hx, Bool.false_eq_true, ↓reduceIte]
  · have hnear := (Binary.ofFloat x).scaled_near places
    have hpow : (0 : ℚ) < 10 ^ (-places : ℤ) := by positivity
    have hone : (10 : ℚ) ^ places * 10 ^ (-places : ℤ) = 1 := by
      rw [zpow_neg, zpow_natCast]
      exact mul_inv_cancel₀ (by positivity)
    calc |((Binary.ofFloat x).scaled places : ℚ) * 10 ^ (-places : ℤ) - (Binary.ofFloat x).magnitude|
        = |((Binary.ofFloat x).scaled places : ℚ) - (Binary.ofFloat x).magnitude * 10 ^ places| *
            10 ^ (-places : ℤ) := by
          rw [← abs_of_pos hpow, ← abs_mul, abs_of_pos hpow, sub_mul, mul_assoc _ (_ ^ places), hone, mul_one]
      _ ≤ 1 / 2 * 10 ^ (-places : ℤ) := by gcongr
      _ = 10 ^ (-places : ℤ) / 2 := by ring

end FieldBridge.Decimal

import FieldBridge.Calendar.Date

/-!
# Days and their dates

A day is the number of its date, and its date is one of the calendar. A cycle of 400
years is taken apart into centuries, groups of four years, and years that begin in
March; in those parts all the arithmetic is linear.
-/

namespace FieldBridge.Date

/-! ## The years of a cycle -/

/-- The first day of a year in its cycle. -/
def startOf (y : Nat) : Nat := 365 * y + y / 4 - y / 100

theorem startOf_eq {c k j : Nat} (hk : k < 25) (hj : j < 4) :
    startOf (100 * c + 4 * k + j) = 36524 * c + 1461 * k + 365 * j := by
  have hquads : (100 * c + 4 * k + j) / 4 = 25 * c + k := by omega
  have hcenturies : (100 * c + 4 * k + j) / 100 = c := by omega
  unfold startOf
  rw [hquads, hcenturies]
  omega

theorem year_of_parts {c k s : Nat} (hc : c < 4) (hk : k < 25) (hs : s ≤ 1460) :
    (36524 * c + 1461 * k + s - (36524 * c + 1461 * k + s) / 1460 + c) / 365 = 100 * c + 4 * k + min 3 (s / 365) := by
  have hquads : (36524 * c + 1461 * k + s) / 1460 = 25 * c + k + (24 * c + k + s) / 1460 := by omega
  rw [hquads]
  by_cases hover : 24 * c + k + s < 1460
  · rw [Nat.div_eq_of_lt hover]
    omega
  · have hone : (24 * c + k + s) / 1460 = 1 := by omega
    rw [hone]
    omega

theorem cycle_year {d : Nat} (hd : d < 146097) :
    ∃ y, (d - d / 1460 + d / 36524 - d / 146096) / 365 = y ∧ y < 400 ∧ startOf y ≤ d ∧ d ≤ startOf y + 365 ∧
      (d = startOf y + 365 → (y + 1) % 4 = 0 ∧ ((y + 1) % 100 ≠ 0 ∨ y + 1 = 400)) := by
  refine ⟨_, rfl, ?_⟩
  by_cases hlast : d = 146096
  · subst hlast
    decide
  · obtain ⟨c, k, s, hc, hk, hs, hshort, rfl⟩ : ∃ c k s, c < 4 ∧ k < 25 ∧ s ≤ 1460 ∧ (k = 24 → s < 1460) ∧
        d = 36524 * c + 1461 * k + s :=
      ⟨d / 36524, d % 36524 / 1461, d % 36524 % 1461, by omega, by omega, by omega, by omega, by omega⟩
    have hcycles : (36524 * c + 1461 * k + s) / 146096 = 0 := by omega
    have hcenturies : (36524 * c + 1461 * k + s) / 36524 = c := by omega
    rw [hcycles, hcenturies, Nat.sub_zero, year_of_parts hc hk hs, startOf_eq hk (by omega)]
    clear hcycles hcenturies
    generalize hj : min 3 (s / 365) = j
    have hyears : 365 * j ≤ s ∧ (s ≤ 365 * j + 364 ∨ j = 3 ∧ s = 1460) ∧ j < 4 := by omega
    clear hj
    omega

/-! ## The months of a year -/

/-- The month and the day within a year that begins in March. -/
theorem month_day {k : Nat} (hk : k ≤ 365) :
    let shifted := (5 * k + 2) / 153
    shifted < 12 ∧ (153 * shifted + 2) / 5 ≤ k ∧ k ≤ (153 * shifted + 2) / 5 + 30 ∧
      (shifted = 1 ∨ shifted = 3 ∨ shifted = 6 ∨ shifted = 8 → k ≤ (153 * shifted + 2) / 5 + 29) ∧
      (shifted = 11 → k ≤ (153 * shifted + 2) / 5 + 28 ∧ (k = (153 * shifted + 2) / 5 + 28 → k = 365)) := by
  intro shifted
  have h : shifted < 12 := by omega
  have hlow : 153 * shifted ≤ 5 * k + 2 := Nat.mul_div_le _ _
  have hhigh : 5 * k + 2 < 153 * shifted + 153 := by omega
  clear_value shifted
  omega

/-- Months counted from March, as they are numbered. -/
def monthOf (shifted : Nat) : Nat := if shifted < 10 then shifted + 3 else shifted - 9

theorem monthOf_spec : ∀ shifted < 12, 1 ≤ monthOf shifted ∧ monthOf shifted ≤ 12 ∧
    (monthOf shifted + 9) % 12 = shifted ∧ (monthOf shifted = 2 → shifted = 11) ∧
    (monthOf shifted = 4 ∨ monthOf shifted = 6 ∨ monthOf shifted = 9 ∨ monthOf shifted = 11 →
      shifted = 1 ∨ shifted = 3 ∨ shifted = 6 ∨ shifted = 8) := by decide

/-- The date on the `k`-th day of the year that begins in March of the year `y` of a cycle. -/
def inCycle (cycle : Int) (y k : Nat) : Date :=
  let shifted := (5 * k + 2) / 153
  { year := y + cycle * 400 + (if monthOf shifted ≤ 2 then 1 else 0)
    month := monthOf shifted
    day := k - (153 * shifted + 2) / 5 + 1 }

/-- Every day is one of a year of a cycle, and the last of 366 only where a leap year follows. -/
theorem ofNumber_eq (n : Int) : ∃ (cycle : Int) (y k : Nat), ofNumber n = inCycle cycle y k ∧
    n + 719468 = cycle * 146097 + (startOf y + k : Nat) ∧ y < 400 ∧ k ≤ 365 ∧
    (k = 365 → (y + 1) % 4 = 0 ∧ ((y + 1) % 100 ≠ 0 ∨ y + 1 = 400)) := by
  obtain ⟨y, hy, hlt, hstart, hmost, hleap⟩ := cycle_year (d := ((n + 719468) % 146097).toNat) (by omega)
  refine ⟨(n + 719468) / 146097, y, ((n + 719468) % 146097).toNat - startOf y, ?_, by omega, hlt, by omega,
    fun h => hleap (by omega)⟩
  unfold ofNumber
  simp only [hy]
  rfl

theorem number_inCycle (cycle : Int) {y k : Nat} (hy : y < 400) (hk : k ≤ 365) :
    (inCycle cycle y k).number = cycle * 146097 + (startOf y + k : Nat) - 719468 := by
  obtain ⟨hshifted, hlow, -⟩ := month_day hk
  obtain ⟨-, -, hmonth, -⟩ := monthOf_spec _ hshifted
  unfold inCycle number startOf
  generalize (5 * k + 2) / 153 = shifted at *
  have hshift : ((monthOf shifted : Int) + 9) % 12 = shifted := by omega
  by_cases hm : monthOf shifted ≤ 2
  · have hquotient : (y + cycle * 400 + 1 - 1 : Int) / 400 = cycle := by omega
    have hremainder : (y + cycle * 400 + 1 - 1 : Int) % 400 = y := by omega
    simp only [hm, if_true, hquotient, hremainder, hshift]
    omega
  · have hquotient : (y + cycle * 400 + 0 : Int) / 400 = cycle := by omega
    have hremainder : (y + cycle * 400 + 0 : Int) % 400 = y := by omega
    simp only [hm, if_false, hquotient, hremainder, hshift]
    omega

/-! ## Days -/

/-- **A day is the number of its date.** -/
theorem number_ofNumber (n : Int) : (ofNumber n).number = n := by
  obtain ⟨cycle, y, k, h, hn, hy, hk, -⟩ := ofNumber_eq n
  rw [h, number_inCycle cycle hy hk]
  omega

theorem ofNumber_month (n : Int) : 1 ≤ (ofNumber n).month ∧ (ofNumber n).month ≤ 12 := by
  obtain ⟨cycle, y, k, h, -, -, hk, -⟩ := ofNumber_eq n
  obtain ⟨hleast, hmost, -⟩ := monthOf_spec _ (month_day hk).1
  rw [h]
  exact ⟨hleast, hmost⟩

/-- **The date of a day is one of its month.** -/
theorem ofNumber_day (n : Int) :
    1 ≤ (ofNumber n).day ∧ (ofNumber n).day ≤ daysIn (ofNumber n).year (ofNumber n).month := by
  obtain ⟨cycle, y, k, h, -, hy, hk, hleap⟩ := ofNumber_eq n
  obtain ⟨hshifted, hlow, hmonth, hshort, hfebruary⟩ := month_day hk
  obtain ⟨-, -, -, htwo, hthirty⟩ := monthOf_spec _ hshifted
  rw [h]
  refine ⟨Nat.succ_pos _, ?_⟩
  unfold inCycle daysIn
  generalize (5 * k + 2) / 153 = shifted at *
  dsimp only
  by_cases hm : monthOf shifted = 2
  · obtain ⟨hfew, hlast⟩ := hfebruary (htwo hm)
    have hearly : monthOf shifted ≤ 2 := by omega
    rw [if_pos hm]
    simp only [hearly, if_true]
    split
    · omega
    · rename_i hyear
      have hk365 : k ≠ 365 := by
        intro h365
        have hl := hleap h365
        simp only [isLeap, Bool.and_eq_true, Bool.or_eq_true, beq_iff_eq, bne_iff_ne] at hyear
        omega
      omega
  · rw [if_neg hm]
    split
    · rename_i h30
      have hfew := hshort (hthirty h30)
      omega
    · omega

end FieldBridge.Date

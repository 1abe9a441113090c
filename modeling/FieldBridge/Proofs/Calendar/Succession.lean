import FieldBridge.Proofs.Calendar.Date
import Mathlib.Tactic.IntervalCases

/-!
# One day after another

The day after a date is the next one of its month, or the first of the month after. Its number is
one more, and dates with the same number are the same. So the date a number of days later is the
one that so many steps from day to day lead to.
-/

namespace FieldBridge.Date

/-- The day after. -/
def next (d : Date) : Date :=
  if d.day < daysIn d.year d.month then { d with day := d.day + 1 }
  else if d.month < 12 then ⟨d.year, d.month + 1, 1⟩
  else ⟨d.year + 1, 1, 1⟩

/-- A day of a month of any year. -/
structure Proper (d : Date) : Prop where
  month : 1 ≤ d.month ∧ d.month ≤ 12
  day : 1 ≤ d.day ∧ d.day ≤ daysIn d.year d.month

variable {d e : Date}

/-! ## Years from March to February -/

/-- The days before the first of March of a year. -/
def marchStart (y : Int) : Int := y / 400 * 146097 + (y % 400 * 365 + y % 400 / 4 - y % 400 / 100)

/-- The place of a day in a year that begins in March, from 1. -/
def sinceMarch (month day : Nat) : Nat := (153 * ((month + 9) % 12) + 2) / 5 + day

/-- The year whose first of March was the last one. -/
def marchYear (d : Date) : Int := if d.month ≤ 2 then d.year - 1 else d.year

theorem marchStart_succ (y : Int) : marchStart (y + 1) = marchStart y + if isLeap (y + 1) then 366 else 365 := by
  unfold marchStart isLeap
  simp only [Bool.and_eq_true, Bool.or_eq_true, beq_iff_eq, bne_iff_ne]
  split <;> omega

theorem marchStart_le {y z : Int} (h : y ≤ z) : marchStart y ≤ marchStart z := by
  obtain ⟨n, rfl⟩ := Int.le.dest h
  clear h
  induction n with
  | zero => simp
  | succ n ih =>
    have hsucc := marchStart_succ (y + n)
    have hnext : y + (n + 1 : Nat) = y + n + 1 := by omega
    rw [hnext, hsucc]
    split <;> omega

theorem number_eq (d : Date) : d.number = marchStart d.marchYear + sinceMarch d.month d.day - 719469 := by
  unfold number marchStart marchYear sinceMarch
  dsimp only
  push_cast
  omega

/-! ## Months from March to February -/

/-- From one month to the next there are as many days as the month has, but for the last one. -/
theorem sinceMarch_succ {month : Nat} (h : 1 ≤ month ∧ month ≤ 12) (year : Int) (hmonth : month ≠ 2) :
    (153 * ((month + 9) % 12) + 2) / 5 + daysIn year month = (153 * ((month + 9) % 12 + 1) + 2) / 5 := by
  obtain ⟨hleast, hmost⟩ := h
  unfold daysIn
  interval_cases month <;> simp_all

theorem sinceMarch_le (h : d.Proper) :
    1 ≤ sinceMarch d.month d.day ∧ sinceMarch d.month d.day ≤ if isLeap (d.marchYear + 1) then 366 else 365 := by
  obtain ⟨hday, hmost⟩ := h.day
  refine ⟨Nat.le_add_left_of_le hday, ?_⟩
  by_cases hmonth : d.month = 2
  · have hyear : d.marchYear + 1 = d.year := by
      unfold marchYear
      omega
    unfold sinceMarch
    rw [hmonth] at hmost ⊢
    rw [hyear]
    simp only [daysIn, if_true] at hmost
    split at hmost <;> rename_i hleap <;> simp [hleap] <;> omega
  · have hsucc := sinceMarch_succ h.month d.year hmonth
    have hlast : (d.month + 9) % 12 + 1 ≤ 11 := by
      have := h.month
      omega
    unfold sinceMarch
    split <;> omega

theorem sinceMarch_lt (hd : d.Proper) (he : e.Proper) (h : (d.month + 9) % 12 < (e.month + 9) % 12) :
    sinceMarch d.month d.day < sinceMarch e.month e.day := by
  obtain ⟨-, hmost⟩ := hd.day
  obtain ⟨hleast, -⟩ := he.day
  have hmonth : d.month ≠ 2 := by
    intro htwo
    rw [htwo] at h
    omega
  have hsucc := sinceMarch_succ hd.month d.year hmonth
  unfold sinceMarch
  omega

/-! ## Dates with the same number -/

theorem number_lt (hd : d.Proper) (he : e.Proper) (h : d.marchYear < e.marchYear) : d.number < e.number := by
  have hstart : marchStart (d.marchYear + 1) ≤ marchStart e.marchYear := marchStart_le h
  have hlast := (sinceMarch_le hd).2
  have hfirst := (sinceMarch_le he).1
  rw [number_eq, number_eq]
  rw [marchStart_succ] at hstart
  split at hstart <;> simp_all <;> omega

/-- **Dates with the same number are the same.** -/
theorem number_injective (hd : d.Proper) (he : e.Proper) (h : d.number = e.number) : d = e := by
  have hyear : d.marchYear = e.marchYear := by
    obtain hlt | heq | hgt := Int.lt_trichotomy d.marchYear e.marchYear
    · exact absurd h (number_lt hd he hlt).ne
    · exact heq
    · exact absurd h (number_lt he hd hgt).ne'
  have hdays : sinceMarch d.month d.day = sinceMarch e.month e.day := by
    rw [number_eq, number_eq, hyear] at h
    omega
  have hshifted : (d.month + 9) % 12 = (e.month + 9) % 12 := by
    obtain hlt | heq | hgt := Nat.lt_trichotomy ((d.month + 9) % 12) ((e.month + 9) % 12)
    · exact absurd hdays (sinceMarch_lt hd he hlt).ne
    · exact heq
    · exact absurd hdays (sinceMarch_lt he hd hgt).ne'
  have hmonth : d.month = e.month := by
    have hd' := hd.month
    have he' := he.month
    omega
  have hday : d.day = e.day := by
    unfold sinceMarch at hdays
    omega
  have hsame : d.year = e.year := by
    unfold marchYear at hyear
    rw [hmonth] at hyear
    split at hyear <;> omega
  cases d
  cases e
  simp_all

theorem proper_ofNumber (n : Int) : (ofNumber n).Proper := ⟨ofNumber_month n, ofNumber_day n⟩

/-- The date of the number of a date is that date. -/
theorem ofNumber_number (h : d.Proper) : ofNumber d.number = d :=
  number_injective (proper_ofNumber _) h (number_ofNumber _)

/-! ## The day after -/

theorem daysIn_pos (year : Int) (month : Nat) : 1 ≤ daysIn year month := by
  unfold daysIn
  split_ifs <;> decide

theorem Proper.next (h : d.Proper) : d.next.Proper := by
  obtain ⟨hmonth, hday⟩ := h
  unfold Date.next
  split_ifs with hsame hyear
  · exact ⟨hmonth, Nat.le_add_left_of_le (Nat.le_refl 1), hsame⟩
  · exact ⟨⟨Nat.le_add_left_of_le (Nat.le_refl 1), hyear⟩, Nat.le_refl 1, daysIn_pos _ _⟩
  · exact ⟨⟨Nat.le_refl 1, show 1 ≤ 12 by decide⟩, Nat.le_refl 1, daysIn_pos _ _⟩

/-- **The day after has the next number.** -/
theorem number_next (h : d.Proper) : d.next.number = d.number + 1 := by
  obtain ⟨hmonth, hday⟩ := h
  unfold Date.next
  split_ifs with hsame hyear
  · simp only [number_eq, sinceMarch, marchYear]
    push_cast
    omega
  · have hlast : d.day = daysIn d.year d.month := by omega
    rw [number_eq, number_eq, hlast]
    by_cases htwo : d.month = 2
    -- a year from March on ends with February
    · simp only [marchYear, sinceMarch, htwo, daysIn]
      have hsucc := marchStart_succ (d.year - 1)
      rw [Int.sub_add_cancel] at hsucc
      split at hsucc <;> simp_all <;> omega
    · have hsucc := sinceMarch_succ hmonth d.year htwo
      have hyears : (Date.mk d.year (d.month + 1) 1).marchYear = d.marchYear := by
        unfold marchYear
        dsimp only
        split_ifs <;> omega
      have hshifted : (d.month + 1 + 9) % 12 = (d.month + 9) % 12 + 1 := by
        omega
      rw [hyears]
      unfold sinceMarch
      dsimp only
      rw [hshifted]
      omega
  · have htwelve : d.month = 12 := by omega
    have hlast : d.day = daysIn d.year d.month := by omega
    rw [number_eq, number_eq, hlast]
    simp [marchYear, sinceMarch, htwelve, daysIn]
    omega

/-- The day after the date of a day is the date of the day after. -/
theorem next_ofNumber (n : Int) : (ofNumber n).next = ofNumber (n + 1) := by
  have hnumber := number_next (proper_ofNumber n)
  rw [number_ofNumber] at hnumber
  rw [← hnumber, ofNumber_number (proper_ofNumber n).next]

theorem year_le_next (d : Date) : d.year ≤ d.next.year := by
  unfold Date.next
  split_ifs
  · exact le_rfl
  · exact le_rfl
  · exact (Int.lt_succ d.year).le

theorem iterate_next_ofNumber (n : Int) (days : Nat) : next^[days] (ofNumber n) = ofNumber (n + days) := by
  induction days with
  | zero => simp
  | succ days ih =>
    rw [Function.iterate_succ_apply', ih, next_ofNumber]
    congr 1
    push_cast
    omega

end FieldBridge.Date

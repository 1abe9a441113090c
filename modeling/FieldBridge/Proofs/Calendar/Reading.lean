import FieldBridge.Calendar.Pattern
import FieldBridge.Proofs.Calendar.Instant
import FieldBridge.Proofs.Text.Blank

/-!
# Dates and their texts

A date is read back from its text with the year first, and from its texts with the day first,
for every year of the calendar. The forms that are tried earlier do not take such a text for
another date: what they take of it for a day leaves a part of the year behind.
-/

namespace FieldBridge
open Decimal

/-! ## What is read is a date of the calendar -/

theorem Date.valid_of_of? {y : ℤ} {m day : ℕ} {d : Date} (h : Date.of? y m day = some d) : d.Valid := by
  unfold Date.of? at h
  dsimp only at h
  split_ifs at h with hvalid
  obtain rfl : _ = d := Option.some.inj h
  exact hvalid

theorem Date.Valid.of? {d : Date} (h : d.Valid) : Date.of? d.year d.month d.day = some d := if_pos h

theorem Date.Valid.bounds {d : Date} (h : d.Valid) : d.month < 100 ∧ d.day < 100 := by
  obtain ⟨-, -, -, htwelve, -, hmost⟩ := h
  have hdays : Date.daysIn d.year d.month ≤ 31 := by
    unfold Date.daysIn
    split_ifs <;> decide
  omega

namespace Reading

theorem forall_bind {α β : Type} {P : β → Prop} {o : Option α} {f : α → Option β}
    (h : ∀ a, o = some a → ∀ b, f a = some b → P b) : ∀ b, (o >>= f) = some b → P b := by
  intro b hb
  obtain ⟨a, ha, hfa⟩ := Option.bind_eq_some_iff.mp hb
  exact h a ha b hfa

theorem eq_of_bind {α β : Type} {o : Option α} {a : α} {f : α → Option β} {b : β} (ho : o = some a)
    (h : (o >>= f) = some b) : f a = some b := by
  rw [ho] at h
  exact h

theorem yearFirst?_valid (cs : List Char) : ∀ r, yearFirst? cs = some r → r.1.Valid := by
  refine forall_bind fun (y, cs) _ => forall_bind fun cs _ => forall_bind fun (m, cs) _ => ?_
  refine forall_bind fun cs _ => forall_bind fun (d, cs) _ => forall_bind fun date hdate => ?_
  rintro r ⟨⟩
  exact Date.valid_of_of? hdate

theorem dayFirst?_valid (c : Char) (cs : List Char) : ∀ r, dayFirst? c cs = some r → r.1.Valid := by
  refine forall_bind fun (d, cs) _ => forall_bind fun cs _ => forall_bind fun (m, cs) _ => ?_
  refine forall_bind fun cs _ => forall_bind fun (y, cs) _ => forall_bind fun date hdate => ?_
  rintro r ⟨⟩
  exact Date.valid_of_of? hdate

theorem local?_valid (cs : List Char) : ∀ r, local? cs = some r → r.1.Valid := by
  refine forall_bind fun (date, rest) hdate => forall_bind fun cs _ => forall_bind fun (h, cs) _ => ?_
  refine forall_bind fun cs _ => forall_bind fun (mi, cs) _ => forall_bind fun cs _ => ?_
  refine forall_bind fun (s, cs) _ => forall_bind fun (nano, cs) _ => forall_bind fun _ _ => ?_
  rintro r ⟨⟩
  exact yearFirst?_valid _ (date, rest) hdate

theorem strictStamp?_valid (cs : List Char) : ∀ r, strictStamp? cs = some r → r.1.Valid := by
  refine forall_bind fun (y, cs) _ => forall_bind fun cs _ => forall_bind fun (m, cs) _ => ?_
  refine forall_bind fun cs _ => forall_bind fun (d, cs) _ => ?_
  cases cs with
  | nil => nofun
  | cons c cs =>
    dsimp only
    split_ifs
    · nofun
    · refine forall_bind fun (h, cs) _ => forall_bind fun cs _ => forall_bind fun (mi, cs) _ => ?_
      refine forall_bind fun cs _ => forall_bind fun (s, cs) _ => forall_bind fun (nano, cs) _ => ?_
      refine forall_bind fun (offset, cs) _ => forall_bind fun date hdate => forall_bind fun time _ => ?_
      rintro r ⟨⟩
      exact Date.valid_of_of? hdate

theorem whole?_eq_some_iff {α : Type} {r : Option (α × List Char)} {a : α} : whole? r = some a ↔ r = some (a, []) := by
  unfold whole?
  split
  · simp
  · rename_i hne
    simp only [reduceCtorEq, false_iff]
    rintro rfl
    exact hne a rfl

/-- A text that holds a date, time of day and offset and nothing more. -/
def stampDate? (cs : List Char) : Option Date := whole? ((strictStamp? cs).map fun (d, _, _, rest) => (d, rest))

end Reading

open Reading in
theorem Date.parse?_eq (s : String) : Date.parse? s =
    (whole? (yearFirst? (Text.trimmed s.toList))).or ((stampDate? (Text.trimmed s.toList)).or
      ((whole? (local? (Text.trimmed s.toList))).or ((whole? (dayFirst? '/' (Text.trimmed s.toList))).or
        (whole? (dayFirst? '-' (Text.trimmed s.toList)))))) := by
  simp only [Date.parse?, stampDate?, Option.orElse_eq_or]

theorem Date.valid_of_parse? {s : String} {d : Date} (h : Date.parse? s = some d) : d.Valid := by
  rw [Date.parse?_eq] at h
  simp only [Option.or_eq_some_iff, Reading.stampDate?, Reading.whole?_eq_some_iff] at h
  rcases h with h | ⟨-, h | ⟨-, h | ⟨-, h | ⟨-, h⟩⟩⟩⟩
  · exact Reading.yearFirst?_valid _ _ h
  · obtain ⟨r, hr, heq⟩ := Option.map_eq_some_iff.mp h
    obtain rfl : r.1 = d := congrArg Prod.fst heq
    exact Reading.strictStamp?_valid _ r hr
  · exact Reading.local?_valid _ _ h
  · exact Reading.dayFirst?_valid _ _ _ h
  · exact Reading.dayFirst?_valid _ _ _ h

/-! ## Written dates -/

/-- The characters of a year: four digits for the years 0 to 9999, and a sign before at least four
digits for all others. -/
inductive WrittenYear : List Char → ℤ → Prop where
  | plain {cs : List Char} {n : ℕ} : Spelled cs 4 n → WrittenYear cs n
  | before {cs : List Char} {width n : ℕ} : 4 ≤ width → 0 < n → Spelled cs width n → WrittenYear ('-' :: cs) (-n)
  | after {cs : List Char} {width n : ℕ} : 4 ≤ width → 10000 ≤ n → Spelled cs width n → WrittenYear ('+' :: cs) n

theorem spelled_fill (n : ℕ) :
    ∃ width, 4 ≤ width ∧ Spelled (Padding.zero.fill 4 (Nat.toDigits 10 n)) width n := by
  refine ⟨_, ?_, rfl, ?_, ?_⟩
  · simp only [Padding.fill, List.length_append, List.length_replicate]
    omega
  · intro c hc
    rcases List.mem_append.mp hc with hc | hc
    · exact isDigit_of_mem_zeros hc
    · exact isDigit_of_mem_toDigits hc
  · rw [Padding.fill, ofDigits_append, ofDigits_zeros, ofDigits_toDigits, Nat.mul_zero, Nat.zero_add]

theorem writtenYear_year (y : ℤ) : WrittenYear (Padding.zero.year y).toList y := by
  unfold Padding.year
  obtain ⟨width, hwidth, hspelled⟩ := spelled_fill y.natAbs
  split_ifs with hplain hnegative
  · obtain ⟨n, rfl⟩ := Int.eq_ofNat_of_zero_le hplain.1
    exact .plain (spelled_number (by decide) (by omega))
  · obtain ⟨n, rfl⟩ := Int.exists_eq_neg_ofNat hnegative.le
    rw [Int.natAbs_neg, Int.natAbs_natCast] at hspelled ⊢
    rw [String.toList_ofList]
    exact .before hwidth (by omega) hspelled
  · obtain ⟨n, rfl⟩ := Int.eq_ofNat_of_zero_le (Int.not_lt.mp hnegative)
    rw [Int.natAbs_natCast] at hspelled ⊢
    rw [String.toList_ofList]
    exact .after hwidth (by omega) hspelled

namespace Reading

theorem char?_of_ne {c d : Char} (h : d ≠ c) (cs : List Char) : char? c (d :: cs) = none := if_neg h

section
variable {cs rest : List Char} {width n : ℕ} (h : Spelled cs width n) (hrest : StopsAt Char.isDigit rest)
include h hrest

/-- Digits are read up to where they stop, if they are neither too few nor too many. -/
theorem digits?_stop {most : ℕ} (least : ℕ) (hmost : width ≤ most) :
    digits? least most (cs ++ rest) = if width < least then none else some (n, rest) := by
  have hstop : StopsAt Char.isDigit (rest.take (most - cs.length)) := by
    intro c hc
    cases rest with
    | nil => simp at hc
    | cons d rest =>
      obtain rfl : c = d := by
        rw [List.head?_take] at hc
        split at hc <;> simp_all
      exact hrest c rfl
  have htake : ((cs ++ rest).take most).takeWhile Char.isDigit = cs := by
    rw [List.take_append, List.take_of_length_le (h.length ▸ hmost)]
    exact takeWhile_append_stop h.digits hstop
  have hdrop : (cs ++ rest).drop cs.length = rest := List.drop_left
  rw [h.length] at hdrop
  simp only [digits?, htake, hdrop, h.length, h.value]

theorem year?_digits (hpos : 0 < width) (hmost : width ≤ 4) : year? (cs ++ rest) = some ((n : ℤ), rest) := by
  have hdigits : digits? 1 4 (cs ++ rest) = some (n, rest) := by
    rw [digits?_stop h hrest 1 hmost, if_neg (by omega)]
  rw [year?, skipBlank_spelled h rest hpos]
  cases cs with
  | nil => simp [← h.length] at hpos
  | cons c cs =>
    have hc := h.digits c List.mem_cons_self
    split
    · rename_i heq
      obtain rfl : c = '-' := (List.cons.inj heq).1
      cases hc
    · rename_i heq
      obtain rfl : c = '+' := (List.cons.inj heq).1
      cases hc
    · rw [hdigits]
      rfl

end

section
variable {y m d : List Char} {year : ℤ} {month day : ℕ} {rest : List Char} {sep : Char}

theorem year?_written (hy : WrittenYear y year) (hrest : StopsAt Char.isDigit rest) :
    year? (y ++ rest) = some (year, rest) := by
  have hdash : Text.isBlank '-' = false := by decide
  have hplus : Text.isBlank '+' = false := by decide
  cases hy with
  | plain hspelled => exact year?_digits hspelled hrest (by decide) (by decide)
  | before hwidth _ hspelled =>
    rw [List.cons_append, year?, skipBlank_cons hdash]
    simp only
    rw [digits?_stop hspelled hrest 1 (by simp [hspelled.length]), if_neg (by omega)]
    rfl
  | after hwidth _ hspelled =>
    rw [List.cons_append, year?, skipBlank_cons hplus]
    simp only
    rw [digits?_stop hspelled hrest 1 (by simp [hspelled.length]), if_neg (by omega)]
    rfl

/-- What two digits of a year leave behind goes on with a digit. -/
theorem spaced?_year (hy : WrittenYear y year) {n : ℕ} (h : spaced? 2 y = some (n, rest)) :
    ∃ c ∈ rest.head?, c.isDigit = true := by
  have hdash : Text.isBlank '-' = false := by decide
  have hplus : Text.isBlank '+' = false := by decide
  cases hy with
  | plain hspelled =>
    have hfirst : Spelled (y.take 2) 2 (Text.ofDigits (y.take 2)) :=
      ⟨by simp [hspelled.length], fun c hc => hspelled.digits c (List.mem_of_mem_take hc), rfl⟩
    have hread := spaced?_spelled hfirst (y.drop 2) (by decide)
    rw [List.take_append_drop, h] at hread
    obtain ⟨-, rfl⟩ := Prod.mk.inj (Option.some.inj hread)
    obtain ⟨c, cs, hcs⟩ : ∃ c cs, y.drop 2 = c :: cs := by
      apply List.exists_cons_of_length_pos
      simp [hspelled.length]
    refine ⟨c, by simp [hcs], hspelled.digits c (List.mem_of_mem_drop (i := 2) ?_)⟩
    simp [hcs]
  | before hwidth _ hspelled =>
    rw [spaced?, skipBlank_cons hdash] at h
    cases h
  | after hwidth _ hspelled =>
    rw [spaced?, skipBlank_cons hplus] at h
    cases h

variable (hy : WrittenYear y year) (hm : Spelled m 2 month) (hd : Spelled d 2 day)
include hy hm hd

theorem yearFirst?_written (rest : List Char) :
    yearFirst? (y ++ '-' :: (m ++ '-' :: (d ++ rest))) = (Date.of? year month day).map fun date => (date, rest) := by
  refine bind_some_eq (year?_written hy (stopsAt_cons (by decide) _)) ?_
  refine bind_some_eq (char?_self '-' _) ?_
  refine bind_some_eq (spaced?_spelled hm _ (by decide)) ?_
  refine bind_some_eq (char?_self '-' _) ?_
  refine bind_some_eq (spaced?_spelled hd _ (by decide)) ?_
  dsimp only
  cases Date.of? year month day <;> rfl

theorem dayFirst?_written (sep : Char) : dayFirst? sep (d ++ sep :: (m ++ sep :: y)) =
    (Date.of? year month day).map fun date => (date, []) := by
  refine bind_some_eq (spaced?_spelled hd _ (by decide)) ?_
  refine bind_some_eq (char?_self sep _) ?_
  refine bind_some_eq (spaced?_spelled hm _ (by decide)) ?_
  refine bind_some_eq (char?_self sep _) ?_
  refine bind_some_eq (List.append_nil y ▸ year?_written hy (stopsAt_nil _)) ?_
  dsimp only
  cases Date.of? year month day <;> rfl

variable (hsep : sep.isDigit = false)
include hsep

/-- The year is never taken for a day to its end. -/
theorem yearFirst?_dayFirst : ∀ r, yearFirst? (d ++ sep :: (m ++ sep :: y)) = some r →
    ∃ c ∈ r.2.head?, c.isDigit = true := by
  intro r h
  replace h := eq_of_bind (year?_digits hd (stopsAt_cons hsep _) (by decide) (by decide)) h
  by_cases hdash : sep = '-'
  · subst hdash
    replace h := eq_of_bind (char?_self '-' _) h
    replace h := eq_of_bind (spaced?_spelled hm _ (by decide)) h
    replace h := eq_of_bind (char?_self '-' _) h
    obtain ⟨n, hread, h⟩ := Option.bind_eq_some_iff.mp h
    obtain ⟨date, -, h⟩ := Option.bind_eq_some_iff.mp h
    obtain rfl := Option.some.inj h
    exact spaced?_year hy hread
  · simp [char?_of_ne hdash] at h

theorem not_yearFirst : whole? (yearFirst? (d ++ sep :: (m ++ sep :: y))) = none := by
  rw [Option.eq_none_iff_forall_ne_some]
  intro date h
  obtain ⟨c, hc, -⟩ := yearFirst?_dayFirst hy hm hd hsep _ (whole?_eq_some_iff.mp h)
  simp at hc

theorem not_local : whole? (local? (d ++ sep :: (m ++ sep :: y))) = none := by
  rw [Option.eq_none_iff_forall_ne_some]
  intro date h
  obtain ⟨r, hread, h⟩ := Option.bind_eq_some_iff.mp (whole?_eq_some_iff.mp h)
  obtain ⟨c, hc, hdigit⟩ := yearFirst?_dayFirst hy hm hd hsep r hread
  obtain ⟨cs, hcs⟩ : ∃ cs, r.2 = c :: cs := List.head?_eq_some_iff.mp hc
  have hne : c ≠ 'T' := by
    rintro rfl
    cases hdigit
  simp [hcs, char?_of_ne hne] at h

omit hy hm in
theorem not_stamp (rest : List Char) : stampDate? (d ++ sep :: rest) = none := by
  have hdigits : digits? 4 4 (d ++ sep :: rest) = none := by
    rw [digits?_stop hd (stopsAt_cons hsep _) 4 (by decide), if_pos (by decide)]
  have hstamp : strictStamp? (d ++ sep :: rest) = none := by
    rw [strictStamp?, hdigits]
    rfl
  rw [stampDate?, hstamp]
  rfl

omit hy hm hsep in
theorem not_dayFirst {other : Char} (hne : sep ≠ other) (rest : List Char) :
    whole? (dayFirst? other (d ++ sep :: rest)) = none := by
  simp [dayFirst?, spaced?_spelled hd (sep :: rest) (by decide), char?_of_ne hne, whole?]

end

end Reading

/-! ## Dates are read back -/

theorem Spelled.not_isBlank {cs : List Char} {width n : ℕ} (h : Spelled cs width n) :
    ∀ c ∈ cs, Text.isBlank c = false := fun c hc => Reading.not_isBlank_of_isDigit (h.digits c hc)

theorem WrittenYear.not_isBlank {cs : List Char} {y : ℤ} (h : WrittenYear cs y) : ∀ c ∈ cs, Text.isBlank c = false := by
  cases h with
  | plain hspelled => exact hspelled.not_isBlank
  | before _ _ hspelled => exact List.forall_mem_cons.mpr ⟨by decide, hspelled.not_isBlank⟩
  | after _ _ hspelled => exact List.forall_mem_cons.mpr ⟨by decide, hspelled.not_isBlank⟩

theorem trimmed_of_not_isBlank {cs : List Char} (h : ∀ c ∈ cs, Text.isBlank c = false) : Text.trimmed cs = cs :=
  Text.Unpadded.trimmed ⟨fun c hc => h c (List.mem_of_mem_head? hc), fun c hc => h c (List.mem_of_mem_getLast? hc)⟩

section
variable {date : Date} (hdate : date.Valid) {s : String} {y m d : List Char} (hy : WrittenYear y date.year)
  (hm : Spelled m 2 date.month) (hd : Spelled d 2 date.day)
include hdate hy hm hd

theorem parse?_yearFirst (hs : s.toList = y ++ '-' :: (m ++ '-' :: d)) : Date.parse? s = some date := by
  have hblank : ∀ c ∈ y ++ '-' :: (m ++ '-' :: d), Text.isBlank c = false := by
    simp only [List.forall_mem_append, List.forall_mem_cons]
    exact ⟨hy.not_isBlank, by decide, hm.not_isBlank, by decide, hd.not_isBlank⟩
  have hread := Reading.yearFirst?_written hy hm hd []
  rw [List.append_nil, hdate.of?] at hread
  rw [Date.parse?_eq, hs, trimmed_of_not_isBlank hblank, hread]
  rfl

theorem parse?_dayFirst {sep : Char} (hsep : sep = '/' ∨ sep = '-') (hs : s.toList = d ++ sep :: (m ++ sep :: y)) :
    Date.parse? s = some date := by
  have hdigit : sep.isDigit = false := by rcases hsep with rfl | rfl <;> decide
  have hblank : ∀ c ∈ d ++ sep :: (m ++ sep :: y), Text.isBlank c = false := by
    have hb : Text.isBlank sep = false := by rcases hsep with rfl | rfl <;> decide
    simp only [List.forall_mem_append, List.forall_mem_cons]
    exact ⟨hd.not_isBlank, hb, hm.not_isBlank, hb, hy.not_isBlank⟩
  have hread := Reading.dayFirst?_written hy hm hd sep
  rw [hdate.of?] at hread
  -- the forms with the year first and the other separator give nothing
  rw [Date.parse?_eq, hs, trimmed_of_not_isBlank hblank, Reading.not_yearFirst hy hm hd hdigit,
    Reading.not_stamp hd hdigit, Reading.not_local hy hm hd hdigit]
  rcases hsep with rfl | rfl
  · rw [hread]
    rfl
  · rw [hread, Reading.not_dayFirst hd (by decide)]
    rfl

end

end FieldBridge

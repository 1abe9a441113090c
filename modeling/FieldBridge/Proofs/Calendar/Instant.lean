import FieldBridge.Calendar.Instant
import FieldBridge.Proofs.Calendar.Date
import FieldBridge.Proofs.Decimal.Text

/-!
# Instants and their texts

An instant in the years 0 to 9999 is read back from its text, and from its text in
milliseconds but for the part of a millisecond. Both texts are a row of numbers of
known width, so each number is read off the front whatever follows it.
-/

namespace FieldBridge
open Decimal

/-! ## Numbers of a known width -/

/-- The characters are `width` digits of a number. -/
structure Spelled (cs : List Char) (width n : ℕ) : Prop where
  length : cs.length = width
  digits : ∀ c ∈ cs, c.isDigit = true
  value : Text.ofDigits cs = n

theorem spelled_number {width n : ℕ} (hpos : 0 < width) (hn : n < 10 ^ width) :
    Spelled (Padding.zero.number width n).toList width n := by
  have hlen : (Nat.toDigits 10 n).length ≤ width := (Nat.length_toDigits_le_iff (by decide) hpos).mpr hn
  rw [Padding.number, String.toList_ofList]
  refine ⟨?_, ?_, ?_⟩
  · simp only [Padding.fill, List.length_append, List.length_replicate]
    omega
  · intro c hc
    rcases List.mem_append.mp hc with hc | hc
    · exact isDigit_of_mem_zeros hc
    · exact isDigit_of_mem_toDigits hc
  · rw [Padding.fill, ofDigits_append, ofDigits_zeros, ofDigits_toDigits]
    simp

theorem two_eq_number : ∀ n < 100, Padding.zero.two n = Padding.zero.number 2 n := by decide +kernel

theorem spelled_two {n : ℕ} (hn : n < 100) : Spelled (Padding.zero.two n).toList 2 n :=
  two_eq_number n hn ▸ spelled_number (by decide) hn

namespace Reading

theorem not_isBlank_of_isDigit {c : Char} (h : c.isDigit = true) : Text.isBlank c = false := by
  cases hblank : Text.isBlank c with
  | false => rfl
  | true =>
    simp only [Char.isDigit, Bool.and_eq_true, decide_eq_true_eq, UInt32.le_iff_toNat_le] at h
    simp only [Text.isBlank, Char.toNat, Bool.or_eq_true, Bool.and_eq_true, decide_eq_true_eq, beq_iff_eq] at hblank
    have hlow : 48 ≤ c.val.toNat := h.1
    have hhigh : c.val.toNat ≤ 57 := h.2
    omega

theorem skipBlank_cons {c : Char} (h : Text.isBlank c = false) (cs : List Char) : skipBlank (c :: cs) = c :: cs :=
  List.dropWhile_cons_of_neg (by simp [h])

theorem char?_self (c : Char) (cs : List Char) : char? c (c :: cs) = some cs := if_pos rfl

section
variable {cs : List Char} {width n : ℕ} (h : Spelled cs width n) (rest : List Char)
include h

theorem digits?_spelled {least : ℕ} (hleast : least ≤ width) : digits? least width (cs ++ rest) = some (n, rest) := by
  have htake : ((cs ++ rest).take width).takeWhile Char.isDigit = cs := by
    rw [← h.length, List.take_left]
    simpa using takeWhile_append_stop h.digits (stopsAt_nil _)
  have hdrop : (cs ++ rest).drop width = rest := by rw [← h.length, List.drop_left]
  simp only [digits?, htake, h.length, h.value, if_neg (Nat.not_lt.mpr hleast), hdrop]

theorem skipBlank_spelled (hpos : 0 < width) : skipBlank (cs ++ rest) = cs ++ rest := by
  cases cs with
  | nil => simp [← h.length] at hpos
  | cons c cs => exact skipBlank_cons (not_isBlank_of_isDigit (h.digits c List.mem_cons_self)) _

theorem spaced?_spelled (hpos : 0 < width) : spaced? width (cs ++ rest) = some (n, rest) := by
  rw [spaced?, skipBlank_spelled h rest hpos, digits?_spelled h rest hpos]

theorem year?_spelled (hwidth : width = 4) : year? (cs ++ rest) = some ((n : ℤ), rest) := by
  subst hwidth
  have hdigits : digits? 1 4 (cs ++ rest) = some (n, rest) := digits?_spelled h rest (by decide)
  rw [year?, skipBlank_spelled h rest (by decide)]
  split
  · rename_i heq
    cases cs with
    | nil => cases h.length
    | cons c cs => exact absurd (h.digits c List.mem_cons_self) ((List.cons.inj heq).1 ▸ by decide)
  · rename_i heq
    cases cs with
    | nil => cases h.length
    | cons c cs => exact absurd (h.digits c List.mem_cons_self) ((List.cons.inj heq).1 ▸ by decide)
  · rw [hdigits]
    rfl

theorem fraction?_spelled (hpos : 0 < width) (hmost : width ≤ 9) (hrest : StopsAt Char.isDigit rest) :
    fraction? ('.' :: (cs ++ rest)) = some (n * 10 ^ (9 - width), rest) := by
  have hne : cs.isEmpty = false := by
    cases cs with
    | nil => simp [← h.length] at hpos
    | cons c cs => rfl
  have htake : cs.take 9 = cs := List.take_of_length_le (h.length ▸ hmost)
  simp only [fraction?, takeWhile_append_stop h.digits hrest, dropWhile_append_stop h.digits hrest, hne, htake,
    h.value, h.length, Bool.false_eq_true, ↓reduceIte]
  rfl

end

theorem fraction?_number {width n : ℕ} (hpos : 0 < width) (hmost : width ≤ 9) (hn : n < 10 ^ width) :
    fraction? (("." ++ Padding.zero.number width n).toList ++ ['Z']) = some (n * 10 ^ (9 - width), ['Z']) := by
  have hstop : Decimal.StopsAt Char.isDigit ['Z'] := stopsAt_cons (by decide) _
  simpa using fraction?_spelled (spelled_number hpos hn) ['Z'] hpos hmost hstop

theorem bind_some_eq {α β : Type} {o : Option α} {a : α} {f : α → Option β} {r : Option β} (ho : o = some a)
    (hf : f a = r) : o >>= f = r := by
  rw [ho]
  exact hf

/-- A time stamp in UTC is read number by number. -/
theorem looseStamp?_spelled {y m d h mi s fraction : List Char} {yn mn dn hn min sn nano : ℕ}
    (hy : Spelled y 4 yn) (hm : Spelled m 2 mn) (hd : Spelled d 2 dn) (hh : Spelled h 2 hn) (hmi : Spelled mi 2 min)
    (hs : Spelled s 2 sn) (hf : fraction? (fraction ++ ['Z']) = some (nano, ['Z'])) :
    looseStamp? (y ++ '-' :: (m ++ '-' :: (d ++ 'T' :: (h ++ ':' :: (mi ++ ':' :: (s ++ (fraction ++ ['Z']))))))) =
      (Date.of? yn mn dn).bind fun date => (time? hn min sn nano).bind fun time => some (date, time, 0, []) := by
  have hdash : Text.isBlank '-' = false := by decide
  have hcolon : Text.isBlank ':' = false := by decide
  refine bind_some_eq (year?_spelled hy _ rfl) ?_
  refine bind_some_eq (skipBlank_cons hdash _ ▸ char?_self '-' _) ?_
  refine bind_some_eq (spaced?_spelled hm _ (by decide)) ?_
  refine bind_some_eq (skipBlank_cons hdash _ ▸ char?_self '-' _) ?_
  refine bind_some_eq (spaced?_spelled hd _ (by decide)) ?_
  refine (if_neg (by decide)).trans ?_
  refine bind_some_eq (spaced?_spelled hh _ (by decide)) ?_
  refine bind_some_eq (skipBlank_cons hcolon _ ▸ char?_self ':' _) ?_
  refine bind_some_eq (spaced?_spelled hmi _ (by decide)) ?_
  refine bind_some_eq (skipBlank_cons hcolon _ ▸ char?_self ':' _) ?_
  refine bind_some_eq (spaced?_spelled hs _ (by decide)) ?_
  refine bind_some_eq hf ?_
  rfl

end Reading

/-! ## Instants -/

namespace Instant

/-- A time of day with its leap seconds after a second 59, on a date of the years 0 to 9999. -/
structure Dated (t : Instant) : Prop where
  second : t.time.second < 86400
  nano : t.time.nano < 1000000000 ∨ t.time.second % 60 = 59 ∧ t.time.nano < 2000000000
  year : 0 ≤ t.date.year ∧ t.date.year ≤ 9999

/-- Cut down to whole milliseconds. -/
def cut (t : Instant) : Instant := ⟨t.day, ⟨t.time.second, t.time.nano - t.time.nano % 1000000⟩⟩

section
variable {t : Instant} (ht : t.Dated)
include ht

theorem Dated.date : Date.of? t.date.year.toNat t.date.month t.date.day = some t.date := by
  obtain ⟨hfirst, hlast⟩ := ht.year
  have hyear : ((t.date.year.toNat : ℕ) : ℤ) = t.date.year := Int.toNat_of_nonneg hfirst
  have hvalid : t.date.Valid := by
    obtain ⟨hmonth, htwelve⟩ := Date.ofNumber_month t.day
    obtain ⟨hday, hmost⟩ := Date.ofNumber_day t.day
    refine ⟨?_, ?_, hmonth, htwelve, hday, hmost⟩
    · exact le_trans (by decide) hfirst
    · exact le_trans hlast (by decide)
  rw [hyear]
  exact if_pos hvalid

theorem Dated.time (nano : ℕ) :
    Reading.time? (t.time.second / 3600) (t.time.second / 60 % 60) t.second nano =
      some ⟨t.time.second, nano + t.time.nano / 1000000000 * 1000000000⟩ := by
  obtain ⟨hsecond, hnano, -⟩ := ht
  unfold Reading.time? Instant.second
  rw [if_pos (by omega)]
  split
  · have hleap : t.time.nano / 1000000000 = 1 := by omega
    have hsum : t.time.second / 3600 * 3600 + t.time.second / 60 % 60 * 60 + 59 = t.time.second := by omega
    simp only [hleap, hsum, Nat.one_mul]
  · have hplain : t.time.nano / 1000000000 = 0 := by omega
    have hsum : t.time.second / 3600 * 3600 + t.time.second / 60 % 60 * 60 +
        (t.time.second % 60 + t.time.nano / 1000000000) = t.time.second := by omega
    simp only [hsum]
    rw [hplain, Nat.zero_mul, Nat.add_zero]

theorem Dated.ofLocal (nano : ℕ) : ofLocal t.date ⟨t.time.second, nano⟩ 0 = ⟨t.day, ⟨t.time.second, nano⟩⟩ := by
  have hnumber : t.date.number = t.day := Date.number_ofNumber t.day
  have hsecond := ht.second
  simp only [Instant.ofLocal, hnumber]
  congr 2 <;> omega

/-- The text with a fraction after the seconds is read as the instant with that fraction. -/
theorem Dated.parse? {fraction : String} {nano : ℕ}
    (hf : Reading.fraction? (fraction.toList ++ ['Z']) = some (nano, ['Z'])) :
    parse? (t.head ++ fraction ++ "Z") =
      some ⟨t.day, ⟨t.time.second, nano + t.time.nano / 1000000000 * 1000000000⟩⟩ := by
  obtain ⟨hfirst, hlast⟩ := ht.year
  obtain ⟨-, htwelve⟩ := Date.ofNumber_month t.day
  obtain ⟨-, hmost⟩ := Date.ofNumber_day t.day
  have hdays : Date.daysIn t.date.year t.date.month ≤ 31 := by
    unfold Date.daysIn
    split_ifs <;> decide
  have hsecond := ht.second
  have hsecond60 : t.second < 100 := by
    have := ht.nano
    unfold Instant.second
    omega
  have hyear : Spelled (Padding.zero.year t.date.year).toList 4 t.date.year.toNat := by
    rw [Padding.year, if_pos (by omega)]
    exact spelled_number (by decide) (by omega)
  have hmonth : Spelled (Padding.zero.two t.date.month).toList 2 t.date.month :=
    spelled_two (by unfold Instant.date; omega)
  have hday : Spelled (Padding.zero.two t.date.day).toList 2 t.date.day :=
    spelled_two (by unfold Instant.date at *; omega)
  have htwo : ∀ n < 100, Spelled (Instant.two n).toList 2 n := fun n hn => spelled_number (by decide) hn
  have hstamp := Reading.looseStamp?_spelled hyear hmonth hday (htwo (t.time.second / 3600) (by omega))
    (htwo (t.time.second / 60 % 60) (by omega)) (htwo t.second hsecond60) hf
  have htext : (t.head ++ fraction ++ "Z").toList = (Padding.zero.year t.date.year).toList ++
      '-' :: ((Padding.zero.two t.date.month).toList ++ '-' :: ((Padding.zero.two t.date.day).toList ++ 'T' ::
        ((Instant.two (t.time.second / 3600)).toList ++ ':' :: ((Instant.two (t.time.second / 60 % 60)).toList ++
          ':' :: ((Instant.two t.second).toList ++ (fraction.toList ++ ['Z'])))))) := by
    simp [Instant.head, Date.iso]
  rw [Instant.parse?, htext, hstamp, ht.date, Option.bind_some, ht.time]
  simp only [Option.bind_eq_bind, Option.bind_some, ht.ofLocal]
  rfl

/-- **An instant is read back from its text.** -/
theorem Dated.parse?_text : Instant.parse? t.text = some t := by
  have hnano : t.nano + t.time.nano / 1000000000 * 1000000000 = t.time.nano := Nat.mod_add_div' _ _
  have hless : t.nano < 1000000000 := Nat.mod_lt _ (by decide)
  obtain ⟨fraction, htext, hread⟩ : ∃ fraction, t.text = t.head ++ fraction ++ "Z" ∧
      Reading.fraction? (fraction.toList ++ ['Z']) = some (t.nano, ['Z']) := by
    refine ⟨_, rfl, ?_⟩
    split_ifs with hwhole hmilli hmicro
    · rw [hwhole]
      rfl
    · rw [Reading.fraction?_number (by decide) (by decide) (by omega),
        show t.nano / 1000000 * 10 ^ (9 - 3) = t.nano by omega]
    · rw [Reading.fraction?_number (by decide) (by decide) (by omega),
        show t.nano / 1000 * 10 ^ (9 - 6) = t.nano by omega]
    · rw [Reading.fraction?_number (by decide) (by decide) (by omega), Nat.sub_self, Nat.pow_zero, Nat.mul_one]
  rw [htext, ht.parse? hread, hnano]

/-- **An instant is read back from its text in milliseconds but for the rest of a millisecond.** -/
theorem Dated.parse?_millisText : Instant.parse? t.millisText = some t.cut := by
  have hless : t.nano < 1000000000 := Nat.mod_lt _ (by decide)
  have hread : Reading.fraction? (("." ++ Padding.zero.number 3 (t.nano / 1000000)).toList ++ ['Z']) =
      some (t.nano / 1000000 * 10 ^ (9 - 3), ['Z']) :=
    Reading.fraction?_number (by decide) (by decide) (by omega)
  have htext : t.millisText = t.head ++ ("." ++ Padding.zero.number 3 (t.nano / 1000000)) ++ "Z" := by
    simp only [millisText, String.append_assoc]
  rw [htext, ht.parse? hread, cut]
  congr 3
  unfold Instant.nano
  omega

end

theorem cut_of_whole {t : Instant} (h : t.time.nano % 1000000 = 0) : t.cut = t := by
  rw [cut, h, Nat.sub_zero]

end Instant

end FieldBridge

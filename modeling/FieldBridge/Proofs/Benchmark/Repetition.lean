import FieldBridge.Benchmark.Samples
import FieldBridge.Proofs.Calendar.Succession
import FieldBridge.Proofs.Conversion.Dates
import FieldBridge.Proofs.Document.Record
import Mathlib

/-!
# Samples do not repeat

The dates among the samples follow one another day by day, month ends and leap days included, and
each is read as the day it was made for. The texts and numbers are made from the positions of the
samples, so no two of them are the same.
-/

namespace FieldBridge

open Decimal

namespace Sample

/-- The day that is a number of days after the first of January 2024. -/
def date (i : ℕ) : Date := Date.next^[i] ⟨2024, 1, 1⟩

theorem date_eq (i : ℕ) : date i = Date.ofNumber (19723 + i) :=
  Date.iterate_next_ofNumber 19723 i

theorem date_injective {i j : ℕ} (h : date i = date j) : i = j := by
  rw [date_eq, date_eq] at h
  have hnumber := congrArg Date.number h
  rw [Date.number_ofNumber, Date.number_ofNumber] at hnumber
  omega

theorem le_year_date (i : ℕ) : 2024 ≤ (date i).year := by
  induction i with
  | zero => exact le_rfl
  | succ i ih =>
    rw [date, Function.iterate_succ_apply']
    exact ih.trans (Date.year_le_next _)

theorem valid_date_iff (i : ℕ) : (date i).Valid ↔ (date i).year ≤ Date.greatestYear := by
  obtain ⟨⟨hmonth, htwelve⟩, hday, hmost⟩ := date_eq i ▸ Date.proper_ofNumber (19723 + i)
  have hfirst : Date.leastYear ≤ (date i).year := le_trans (by decide) (le_year_date i)
  exact ⟨fun h => h.2.1, fun h => ⟨hfirst, h, hmonth, htwelve, hday, hmost⟩⟩

theorem day_eq {i : ℕ} (h : (date i).Valid) : day i = (date i).iso := by
  have hdate : (Date.mk 2024 1 1).addDays? i = some (date i) := by
    rw [date_eq] at h ⊢
    exact if_pos ⟨h.1, h.2.1⟩
  rw [day, hdate]
  rfl

end Sample

/-! ## Dates with a time of day -/

/-- Nine o'clock in UTC, to the millisecond. -/
def Sample.clock : List Char := ['0', '9', ':', '0', '0', ':', '0', '0', '.', '0', '0', '0', 'Z']

theorem Sample.not_isBlank_clock : ∀ c ∈ clock, Text.isBlank c = false := by
  simp [clock, Text.isBlank]

namespace Reading

open Sample in
theorem stampDate?_clock {y m d : List Char} {year month day : ℕ} (hy : Spelled y 4 year) (hm : Spelled m 2 month)
    (hd : Spelled d 2 day) :
    stampDate? (y ++ '-' :: (m ++ '-' :: (d ++ 'T' :: clock))) = Date.of? year month day := by
  have hstamp : strictStamp? (y ++ '-' :: (m ++ '-' :: (d ++ 'T' :: clock))) =
      (Date.of? year month day).map fun date => (date, ⟨32400, 0⟩, 0, []) := by
    refine bind_some_eq (digits?_spelled hy _ (Nat.le_refl 4)) ?_
    refine bind_some_eq (char?_self '-' _) ?_
    refine bind_some_eq (digits?_spelled hm _ (Nat.le_refl 2)) ?_
    refine bind_some_eq (char?_self '-' _) ?_
    refine bind_some_eq (digits?_spelled hd _ (Nat.le_refl 2)) ?_
    dsimp only
    rw [if_neg (by decide)]
    -- from here on the text is the same for every date
    refine bind_some_eq (a := (9, clock.drop 2)) (by decide) ?_
    refine bind_some_eq (a := clock.drop 3) (by decide) ?_
    refine bind_some_eq (a := (0, clock.drop 5)) (by decide) ?_
    refine bind_some_eq (a := clock.drop 6) (by decide) ?_
    refine bind_some_eq (a := (0, clock.drop 8)) (by decide) ?_
    refine bind_some_eq (a := (0, ['Z'])) (by decide) ?_
    refine bind_some_eq (a := (0, [])) (by decide) ?_
    dsimp only
    cases Date.of? year month day <;> rfl
  rw [stampDate?, hstamp]
  cases Date.of? year month day <;> rfl

end Reading

section
variable {date : Date} {s : String}

/-- The days of the years 0 to 9999 have four digits for the year. -/
theorem spelled_year (hfirst : 0 ≤ date.year) (hlast : date.year ≤ 9999) :
    Spelled (Padding.zero.year date.year).toList 4 date.year.toNat := by
  rw [Padding.year, if_pos (by omega)]
  exact spelled_number (by decide) (by omega)

open Sample in
theorem parse?_clock (hdate : date.Valid) (hfirst : 0 ≤ date.year) (hlast : date.year ≤ 9999) :
    Date.parse? (date.iso ++ "T09:00:00.000Z") = some date := by
  obtain ⟨hm, hd⟩ := Builtin.spelled_month_day hdate
  have hy := spelled_year hfirst hlast
  have hwritten := writtenYear_year date.year
  have hyear : ((date.year.toNat : ℕ) : ℤ) = date.year := Int.toNat_of_nonneg hfirst
  have hs : (date.iso ++ "T09:00:00.000Z").toList = (Padding.zero.year date.year).toList ++
      '-' :: ((Padding.zero.two date.month).toList ++ '-' :: ((Padding.zero.two date.day).toList ++ 'T' :: clock)) := by
    simp [Date.iso, clock]
  have hblank : ∀ c ∈ (date.iso ++ "T09:00:00.000Z").toList, Text.isBlank c = false := by
    rw [hs]
    simp only [List.forall_mem_append, List.forall_mem_cons]
    exact ⟨hwritten.not_isBlank, by decide, hm.not_isBlank, by decide, hd.not_isBlank, by decide, not_isBlank_clock⟩
  have hdate? : Date.of? date.year.toNat date.month date.day = some date := by
    rw [hyear]
    exact hdate.of?
  rw [Date.parse?_eq, trimmed_of_not_isBlank hblank, hs, Reading.yearFirst?_written hwritten hm hd,
    Reading.stampDate?_clock hy hm hd, hdate?, hdate.of?]
  rfl

end

/-! ## Samples of dates -/

namespace Builtin

/-- Day, month and year with slashes between: day and month with two digits, and the year with four or
with a sign. -/
def DayFirstText (d : Date) (s : String) : Prop :=
  ∃ day m y, Spelled day 2 d.day ∧ Spelled m 2 d.month ∧ WrittenYear y d.year ∧
    s.toList = day ++ '/' :: (m ++ '/' :: y)

theorem dateToText_dayFirst {d : Date} (hd : d.Valid) {o : Options} (h : AsksPattern o "%d/%m/%Y") :
    ∃ text, dateToText.run (date d) o = .ok (.string text) ∧ DayFirstText d text := by
  obtain ⟨hm, hday⟩ := spelled_month_day hd
  have hp : Pattern.parse? "%d/%m/%Y" =
      some [.number .day .zero, .literal "/", .number .month .zero, .literal "/", .number .year .zero] := by decide
  refine ⟨_, dateToText_rendered hd h hp rfl, _, _, _, hday, hm, writtenYear_year d.year, ?_⟩
  simp [DateNumber.text, String.join]

end Builtin

namespace Sample

variable {i : ℕ} {k : Kind}

theorem date_sample (h : (date i).Valid) : Kind.date.sample i = Builtin.date (date i) := by
  rw [Kind.sample, day_eq h, Builtin.date]

theorem parse?_stamp (hlast : (date i).year ≤ 9999) (hk : k = .createdTime ∨ k = .lastEditedTime) :
    ∃ s, k.sample i = .string s ∧ Date.parse? s = some (date i) := by
  have hfirst : 0 ≤ (date i).year := le_trans (by decide) (le_year_date i)
  have hvalid : (date i).Valid := (valid_date_iff i).mpr (le_trans hlast (by decide))
  refine ⟨(date i).iso ++ "T09:00:00.000Z", ?_, parse?_clock hvalid hfirst hlast⟩
  obtain rfl | rfl := hk
  · rw [Kind.sample, day_eq hvalid]
  · rw [Kind.sample, day_eq hvalid]

end Sample

/-! ## No sample comes twice -/

/-- The kinds whose samples are made from the positions of the samples. -/
def Kind.numbered : List Kind :=
  [.text, .title, .richText, .select, .status, .multiSelect, .url, .email, .person, .createdBy, .lastEditedBy,
    .files, .image, .formula, .relation]

theorem Json.nat_inj {m n : ℕ} (hm : m < 0x10000000000000000) (hn : n < 0x10000000000000000)
    (h : Json.nat m = Json.nat n) : m = n := by
  obtain ⟨_, hm'⟩ := Record.encode_nat hm
  obtain ⟨_, hn'⟩ := Record.encode_nat hn
  have heq : Record.encode m = Record.encode n := h
  rw [hm', hn'] at heq
  simpa using heq

theorem Kind.sample_inj {k : Kind} (hk : k ∈ numbered) {i j : ℕ}
    (hformula : k = .formula → i < 0x10000000000000000 ∧ j < 0x10000000000000000)
    (h : k.sample i = k.sample j) : i = j := by
  cases k with
  | formula =>
    obtain ⟨hi, hj⟩ := hformula rfl
    simp only [sample, Sample.computed, Json.object.injEq, List.cons.injEq, Prod.mk.injEq] at h
    exact Json.nat_inj hi hj h.1.2
  | text | title | richText | url | email | image | relation => simpa [sample, Nat.repr_inj] using h
  | select | status | multiSelect => simpa [sample, Json.choice, Nat.repr_inj] using h
  | person | createdBy | lastEditedBy => simpa [sample, Sample.named, Nat.repr_inj] using h
  | files =>
    simp only [sample, Sample.file, Json.array.injEq, List.cons.injEq, Json.object.injEq, Prod.mk.injEq] at h
    simpa [Nat.repr_inj] using h.1.1.2
  | number | date | createdTime | lastEditedTime | checkbox | phoneNumber | rollup => simp [numbered] at hk

theorem Kind.nodup_samples {k : Kind} {count : ℕ}
    (h : ∀ i < count, ∀ j < count, k.sample i = k.sample j → i = j) : (k.samples count).Nodup := by
  apply List.Nodup.map_on ?_ List.nodup_range
  intro i hi j hj heq
  exact h i (List.mem_range.mp hi) j (List.mem_range.mp hj) heq

/-- Samples that hold texts of dates are distinct because each is read as a day of its own. -/
theorem Kind.nodup_of_reads {k : Kind} {count : ℕ} (form : String → Json) (hform : ∀ s t, form s = form t → s = t)
    (h : ∀ i < count, ∃ s, k.sample i = form s ∧ Date.parse? s = some (Sample.date i)) : (k.samples count).Nodup := by
  apply nodup_samples
  intro i hi j hj heq
  obtain ⟨s, hs, hread⟩ := h i hi
  obtain ⟨t, ht, hread'⟩ := h j hj
  rw [hs, ht] at heq
  obtain rfl := hform s t heq
  exact Sample.date_injective (Option.some.inj (hread.symm.trans hread'))

/-- **Samples are usable dates, and none comes twice.** As long as the days after the first of
January 2024 are in the calendar, each sample of a date is read as the day it stands for and is
written with the day first as that day, and up to the year 9999 so are the samples of points in
time. Up to there they are distinct, and those of the numbered kinds are distinct in any number. -/
theorem samples_usable :
    (∀ i, (Sample.date i).Valid →
      (∃ start, Kind.date.sample i = .object [("start", .string start)] ∧ Date.parse? start = some (Sample.date i)) ∧
      ∀ o, Builtin.AsksPattern o "%d/%m/%Y" → ∃ text,
        Builtin.dateToText.run (Kind.date.sample i) o = .ok (.string text) ∧
          Builtin.DayFirstText (Sample.date i) text) ∧
    (∀ i, (Sample.date i).year ≤ 9999 → ∀ k, k = .createdTime ∨ k = .lastEditedTime →
      ∃ s, Kind.sample i k = .string s ∧ Date.parse? s = some (Sample.date i)) ∧
    (∀ count, (∀ i < count, (Sample.date i).Valid) → (Kind.date.samples count).Nodup) ∧
    (∀ count, (∀ i < count, (Sample.date i).year ≤ 9999) → ∀ k, k = .createdTime ∨ k = .lastEditedTime →
      (Kind.samples k count).Nodup) ∧
    ∀ k ∈ Kind.numbered, ∀ count, (k = .formula → count ≤ 0x10000000000000000) → (k.samples count).Nodup := by
  have hdates : ∀ i, (Sample.date i).Valid → ∃ start,
      Kind.date.sample i = .object [("start", .string start)] ∧ Date.parse? start = some (Sample.date i) := by
    intro i hi
    exact ⟨(Sample.date i).iso, Sample.date_sample hi, (Builtin.isoText_iso hi).parse? hi⟩
  refine ⟨fun i hi => ⟨hdates i hi, fun o ho => ?_⟩, fun i hi k hk => Sample.parse?_stamp hi hk, ?_, ?_, ?_⟩
  · rw [Sample.date_sample hi]
    exact Builtin.dateToText_dayFirst hi ho
  · intro count hcount
    apply Kind.nodup_of_reads (fun s => .object [("start", .string s)]) (by simp)
    exact fun i hi => hdates i (hcount i hi)
  · intro count hcount k hk
    apply Kind.nodup_of_reads .string (by simp)
    exact fun i hi => Sample.parse?_stamp (hcount i hi) hk
  · intro k hk count hcount
    apply Kind.nodup_samples
    intro i hi j hj heq
    refine Kind.sample_inj hk (fun hformula => ?_) heq
    have hbound := hcount hformula
    exact ⟨hi.trans_le hbound, hj.trans_le hbound⟩

/-- The sixty-first sample is the day after the leap day of 2024. -/
theorem samples_usable_march :
    Sample.date 60 = ⟨2024, 3, 1⟩ ∧ (Sample.date 60).Valid ∧ (Sample.date 60).year ≤ 9999 ∧
      (∃ start, Kind.date.sample 60 = .object [("start", .string start)] ∧
        Date.parse? start = some (Sample.date 60)) ∧
      (∃ text, Builtin.dateToText.run (Kind.date.sample 60) ⟨[]⟩ = .ok (.string text) ∧
        Builtin.DayFirstText (Sample.date 60) text) ∧
      (∃ s, Kind.createdTime.sample 60 = .string s ∧ Date.parse? s = some (Sample.date 60)) ∧
      (∀ i < 61, (Sample.date i).Valid) ∧ (Kind.date.samples 61).Nodup ∧ (Kind.createdTime.samples 61).Nodup ∧
      Kind.formula ∈ Kind.numbered ∧ (Kind.formula.samples 61).Nodup := by
  have hdate : Sample.date 60 = ⟨2024, 3, 1⟩ := by decide +kernel
  have hvalid : ∀ i < 61, (Sample.date i).Valid := by decide +kernel
  have hyear : ∀ i < 61, (Sample.date i).year ≤ 9999 := by decide +kernel
  have hformula : Kind.formula ∈ Kind.numbered := by decide
  obtain ⟨hread, hstamp, hdates, hstamps, hnumbered⟩ := samples_usable
  obtain ⟨hstart, htext⟩ := hread 60 (hvalid 60 (by decide))
  refine ⟨hdate, hvalid 60 (by decide), hyear 60 (by decide), hstart, htext ⟨[]⟩ (.absent rfl),
    hstamp 60 (hyear 60 (by decide)) _ (.inl rfl), hvalid, hdates 61 hvalid, hstamps 61 hyear _ (.inl rfl), hformula,
    hnumbered _ hformula 61 fun _ => by decide⟩

end FieldBridge

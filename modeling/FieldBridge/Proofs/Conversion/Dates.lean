import FieldBridge.Conversion.Builtin
import FieldBridge.Proofs.Calendar.Reading

/-!
# Dates through text

A text in any of the forms of a date becomes a date in its ISO form. Written out as text in
one of three patterns and read again, it is the same date.
-/

namespace FieldBridge.Builtin

/-- Year, month and day with dashes between: month and day with two digits, and the year with four or
with a sign. -/
def IsoText (d : Date) (s : String) : Prop :=
  ∃ y m day, WrittenYear y d.year ∧ Spelled m 2 d.month ∧ Spelled day 2 d.day ∧
    s.toList = y ++ '-' :: (m ++ '-' :: day)

/-- The patterns whose texts are dates again. -/
def readablePatterns : List String := ["%d/%m/%Y", "%Y-%m-%d", "%d-%m-%Y"]

/-- The pattern that options ask for. -/
inductive AsksPattern : Options → String → Prop where
  | absent {o : Options} : o.get? "format" = none → AsksPattern o "%d/%m/%Y"
  | given {o : Options} {f : String} : o.get? "format" = some (.string f) → AsksPattern o f

variable {d : Date} {f s : String}

theorem spelled_month_day (hd : d.Valid) :
    Spelled (Padding.zero.two d.month).toList 2 d.month ∧ Spelled (Padding.zero.two d.day).toList 2 d.day :=
  ⟨spelled_two hd.bounds.1, spelled_two hd.bounds.2⟩

theorem isoText_iso (hd : d.Valid) : IsoText d d.iso := by
  obtain ⟨hmonth, hday⟩ := spelled_month_day hd
  exact ⟨_, _, _, writtenYear_year d.year, hmonth, hday, by simp [Date.iso]⟩

theorem IsoText.parse? (h : IsoText d s) (hd : d.Valid) : Date.parse? s = some d := by
  obtain ⟨y, m, day, hy, hm, hday, hs⟩ := h
  exact parse?_yearFirst hd hy hm hday hs

/-- In each of these patterns a date has a text, and the text is that date. -/
theorem exists_rendered (hf : f ∈ readablePatterns) (hd : d.Valid) :
    ∃ p text, Pattern.parse? f = some p ∧ p.render? d = some text ∧ Date.parse? text = some d := by
  obtain ⟨hmonth, hday⟩ := spelled_month_day hd
  have hyear := writtenYear_year d.year
  simp only [readablePatterns, List.mem_cons, List.not_mem_nil, or_false] at hf
  rcases hf with rfl | rfl | rfl
  · refine ⟨[.number .day .zero, .literal "/", .number .month .zero, .literal "/", .number .year .zero], _, by decide,
      rfl, parse?_dayFirst hd hyear hmonth hday (.inl rfl) ?_⟩
    simp [DateNumber.text, String.join]
  · refine ⟨[.number .year .zero, .literal "-", .number .month .zero, .literal "-", .number .day .zero], _, by decide,
      rfl, parse?_yearFirst hd hyear hmonth hday ?_⟩
    simp [DateNumber.text, String.join]
  · refine ⟨[.number .day .zero, .literal "-", .number .month .zero, .literal "-", .number .year .zero], _, by decide,
      rfl, parse?_dayFirst hd hyear hmonth hday (.inr rfl) ?_⟩
    simp [DateNumber.text, String.join]

theorem datePattern_eq {o : Options} (h : AsksPattern o f) {p : Pattern} (hp : Pattern.parse? f = some p) :
    datePattern o = .ok p := by
  unfold datePattern Options.text
  cases h with
  | absent hget => simp [hget, bind, Except.bind, hp]
  | given hget => simp [hget, bind, Except.bind, hp]

theorem textToDate_run (hs : Date.parse? s = some d) (o : Options) :
    textToDate.run (.string s) o = .ok (date d) := by
  show runTextToDate (.string s) o = _
  rw [runTextToDate, hs]
  rfl

/-- A date is written in the pattern that the options ask for. -/
theorem dateToText_rendered {o : Options} (hd : d.Valid) (h : AsksPattern o f) {p : Pattern} {text : String}
    (hp : Pattern.parse? f = some p) (hrender : p.render? d = some text) :
    dateToText.run (date d) o = .ok (.string text) := by
  have hiso : dateOf? (.string d.iso) = some d := (isoText_iso hd).parse? hd
  show runDateToText (date d) o = _
  rw [runDateToText, datePattern_eq h hp]
  simp [bind, Except.bind, dateText, date, Json.member?, Keyed.find?, hiso, hrender]

theorem dateToText_run {o : Options} (hd : d.Valid) (hf : f ∈ readablePatterns) (h : AsksPattern o f) :
    ∃ text, dateToText.run (date d) o = .ok (.string text) ∧ Date.parse? text = some d := by
  obtain ⟨p, text, hp, hrender, hread⟩ := exists_rendered hf hd
  exact ⟨text, dateToText_rendered hd h hp hrender, hread⟩

/-- **A date is the same date after the way through text**, whatever form it was first written in. -/
theorem date_through_text (s : String) (d : Date) (hs : Date.parse? s = some d) :
    (∀ o, ∃ iso, textToDate.run (.string s) o = .ok (.object [("start", .string iso)]) ∧ IsoText d iso) ∧
    ∀ (o o' o'' : Options), ∀ f ∈ readablePatterns, AsksPattern o' f →
      (textToDate.run (.string s) o >>= fun start => dateToText.run start o' >>=
        fun text => textToDate.run text o'') = textToDate.run (.string s) o := by
  have hd := Date.valid_of_parse? hs
  constructor
  · intro o
    exact ⟨d.iso, textToDate_run hs o, isoText_iso hd⟩
  · intro o o' o'' f hf h
    obtain ⟨text, htext, hread⟩ := dateToText_run hd hf h
    rw [textToDate_run hs]
    show (dateToText.run (date d) o' >>= fun text => textToDate.run text o'') = _
    rw [htext]
    exact textToDate_run hread o''

/-- A leap day of a year with a sign, with blanks inside the text, read with the day first. -/
theorem date_through_text_signed :
    let o : Options := ⟨[("format", .string "%d-%m-%Y")]⟩
    Date.parse? " 29-2- +12024\t" = some ⟨12024, 2, 29⟩ ∧ "%d-%m-%Y" ∈ readablePatterns ∧ AsksPattern o "%d-%m-%Y" ∧
      dateToText.run (date ⟨12024, 2, 29⟩) o = .ok (.string "29-02-+12024") ∧
      (textToDate.run (.string " 29-2- +12024\t") o >>= fun start => dateToText.run start o >>=
        fun text => textToDate.run text o) = textToDate.run (.string " 29-2- +12024\t") o := by
  intro o
  have hs : Date.parse? " 29-2- +12024\t" = some ⟨12024, 2, 29⟩ := by decide
  have hf : "%d-%m-%Y" ∈ readablePatterns := by decide
  have h : AsksPattern o "%d-%m-%Y" := .given rfl
  exact ⟨hs, hf, h, by rfl, (date_through_text _ _ hs).2 o o o _ hf h⟩

end FieldBridge.Builtin

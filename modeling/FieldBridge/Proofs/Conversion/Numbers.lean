import FieldBridge.Conversion.Builtin
import FieldBridge.Proofs.Calendar.Instant
import FieldBridge.Proofs.Decimal.Whole
import FieldBridge.Proofs.Json.Compact

/-!
# Whole numbers through text

A number written as text has a sign and digits, and what is put between them for a reader
goes before they are read. They are read as a float, so that what comes back is the nearest
number that a float can hold.
-/

namespace FieldBridge.Builtin

open Decimal (IsNearest Representable clampInt64 truncate wholeFloat)

/-- The currency signs and the comma that are not read. -/
def marks : List Char := ['$', '€', '£', '¥', ',']

/-- A text with marks and blanks put in anywhere. -/
inductive Punctuated : List Char → List Char → Prop where
  | nil : Punctuated [] []
  | keep (c : Char) {cs ds : List Char} : Punctuated cs ds → Punctuated (c :: cs) (c :: ds)
  | insert {c : Char} {cs ds : List Char} : c ∈ marks ∨ Text.isBlank c = true →
      Punctuated cs ds → Punctuated cs (c :: ds)

theorem isFiller_iff {c : Char} : isFiller c = true ↔ c ∈ marks ∨ Text.isBlank c = true := by
  have hmarks : "$€£¥,".toList = marks := by decide
  rw [isFiller, Bool.or_eq_true, hmarks, List.contains_iff_mem]

namespace Punctuated

variable {cs ds : List Char}

theorem refl (cs : List Char) : Punctuated cs cs := by
  induction cs with
  | nil => exact .nil
  | cons c cs ih => exact .keep c ih

theorem filter (h : Punctuated cs ds) (hcs : ∀ c ∈ cs, isFiller c = false) : ds.filter (!isFiller ·) = cs := by
  induction h with
  | nil => rfl
  | keep c _ ih =>
    rw [List.forall_mem_cons] at hcs
    rw [List.filter_cons_of_pos (by simp [hcs.1]), ih hcs.2]
  | insert hc _ ih =>
    rw [List.filter_cons_of_neg (by simpa using isFiller_iff.mpr hc), ih hcs]

end Punctuated

/-! ## Reading digits -/

theorem isFiller_of_isDigit {c : Char} (h : c.isDigit = true) : isFiller c = false := by
  have hmark : ∀ c ∈ marks, c.isDigit = false := by simp [marks]
  rw [← Bool.not_eq_true, isFiller_iff]
  rintro (hc | hc)
  · exact Bool.noConfusion ((hmark c hc).symm.trans h)
  · exact Bool.noConfusion ((Reading.not_isBlank_of_isDigit h).symm.trans hc)

theorem isDigit_of_ascii {c : Char} (h : c.isDigit = true) : Text.isDigit c = true := by
  obtain ⟨hlow, hhigh⟩ : 48 ≤ c.toNat ∧ c.toNat ≤ 57 := Char.isDigit_iff_toNat.mp h
  rw [Text.isDigit, List.any_eq_true]
  refine ⟨0x30, by decide, ?_⟩
  simp only [Bool.and_eq_true, decide_eq_true_eq]
  omega

theorem numberAtStart_digits (negative : Bool) {ds : List Char} (hne : ds ≠ [])
    (hds : ∀ c ∈ ds, c.isDigit = true) :
    numberAtStart ((if negative then ['-'] else []) ++ ds) = (if negative then ['-'] else []) ++ ds := by
  have hwhole : ds.takeWhile Text.isDigit = ds :=
    List.takeWhile_eq_self_iff.mpr fun c hc => isDigit_of_ascii (hds c hc)
  have hsign : ¬(ds.head? = some '-' ∨ ds.head? = some '+') := by
    rintro (h | h) <;> exact absurd (hds _ (List.mem_of_head? h)) (by decide)
  cases negative with
  | true => simp [numberAtStart, hwhole, hne, exponentPart]
  | false => simp [numberAtStart, hsign, hwhole, hne, exponentPart]

theorem toLower_of_isDigit {c : Char} (h : c.isDigit = true) : c.toLower = c := by
  have hhigh : c.toNat ≤ 57 := (Char.isDigit_iff_toNat.mp h).2
  apply Char.toLower_eq_of_not_isUpper
  simp only [Char.isUpper, decide_eq_true_eq, ge_iff_le, UInt32.le_iff_toNat_le, Char.toNat_val]
  have hlow : 'A'.toNat = 65 := rfl
  omega

theorem decimal?_digits (n : ℕ) : Decimal.decimal? (Nat.toDigits 10 n) = some ⟨n, 0⟩ := by
  have hwhole := Decimal.decimal?_whole (Nat.toDigits_ne_nil (b := 10) (n := n))
    (fun _ => Decimal.isDigit_of_mem_toDigits) (Decimal.stopsAt_nil _) (by simp)
  simpa [Decimal.exponent?, Decimal.ofDigits_toDigits] using hwhole

theorem float?_digits (negative : Bool) (n : ℕ) :
    Decimal.float? (String.ofList ((if negative then ['-'] else []) ++ Nat.toDigits 10 n)) =
      some (if negative then -Decimal.nearest ⟨n, 0⟩ else Decimal.nearest ⟨n, 0⟩) := by
  have hsign : Decimal.takeSign ((if negative then ['-'] else []) ++ Nat.toDigits 10 n) =
      (negative, Nat.toDigits 10 n) := by
    cases negative with
    | true => rfl
    | false => exact Decimal.takeSign_digits n
  -- the words for an infinity and for what is no number begin with letters
  have hword : ∀ word : String, word.toList.head?.all (!·.isDigit) = true →
      String.ofList ((Nat.toDigits 10 n).map Char.toLower) ≠ word := by
    rintro word hword rfl
    cases hds : Nat.toDigits 10 n with
    | nil => exact Nat.toDigits_ne_nil hds
    | cons d ds =>
      have hd : d.isDigit = true := Decimal.isDigit_of_mem_toDigits (hds ▸ List.mem_cons_self)
      rw [hds, List.map_cons, toLower_of_isDigit hd] at hword
      simp [hd] at hword
  unfold Decimal.float?
  rw [String.toList_ofList, hsign]
  cases negative
  all_goals
    simp only [Bool.false_eq_true, if_false, if_true]
    split
    case h_1 h => exact absurd h (hword _ (by decide))
    case h_2 h => exact absurd h (hword _ (by decide))
    case h_3 h => exact absurd h (hword _ (by decide))
    case h_4 => rw [decimal?_digits]; rfl

/-- Whatever is put into it, the text of a whole number is read as the float of its digits. -/
theorem readNumber?_whole {n : ℤ} (hn : n.natAbs < 2 ^ 64) {s : String} (h : Punctuated (toString n).toList s.toList) :
    readNumber? s = some (wholeFloat n) := by
  have hne : Nat.toDigits 10 n.natAbs ≠ [] := Nat.toDigits_ne_nil
  have hds : ∀ c ∈ Nat.toDigits 10 n.natAbs, c.isDigit = true := fun _ => Decimal.isDigit_of_mem_toDigits
  have hchars : (toString n).toList = (if decide (n < 0) then ['-'] else []) ++ Nat.toDigits 10 n.natAbs := by
    rw [Number.toList_toString_int]
    simp
  have hfilter : s.toList.filter (!isFiller ·) = (toString n).toList := by
    refine h.filter fun c hc => ?_
    rw [hchars, List.mem_append] at hc
    rcases hc with hc | hc
    · obtain rfl : c = '-' := by
        split at hc <;> simp_all
      decide
    · exact isFiller_of_isDigit (hds c hc)
  have hread : Decimal.float? (String.ofList (toString n).toList) = some (wholeFloat n) := by
    rw [hchars, float?_digits]
    simp [wholeFloat]
  have hstart : numberAtStart (toString n).toList = (toString n).toList := by
    rw [hchars]
    exact numberAtStart_digits _ hne hds
  have hnil : (toString n).toList ≠ [] := by
    rw [hchars]
    simp [hne]
  unfold readNumber?
  rw [hfilter, hstart]
  split
  · rename_i hempty
    exact absurd hempty hnil
  · rw [hread, Option.filter_some, if_pos (Decimal.wholeFloat_nearest hn).1]

/-! ## Both ways -/

section
variable {n : ℤ} {o : Options}

theorem int_eq_number (hlo : -2 ^ 63 ≤ n) (hhi : n < 2 ^ 63) :
    Json.int n = .number (.int n ⟨by omega, by omega⟩) := by
  unfold Json.int Number.ofInt?
  rw [dif_pos ⟨by omega, by omega⟩]

theorem numberToText_run (hlo : -2 ^ 63 ≤ n) (hhi : n < 2 ^ 63) (o : Options) :
    numberToText.run (.int n) o = .ok (.string (toString n)) := by
  rw [int_eq_number hlo hhi]
  rfl

theorem wholeNumbers_integer (ho : o.get? "parseMode" = some (.string "integer")) : wholeNumbers o = .ok true := by
  unfold wholeNumbers Options.text
  rw [ho]
  rfl

theorem textToNumber_run (hlo : -2 ^ 63 ≤ n) (hhi : n < 2 ^ 63) (ho : o.get? "parseMode" = some (.string "integer"))
    {s : String} (h : Punctuated (toString n).toList s.toList) :
    textToNumber.run (.string s) o = .ok (.int (clampInt64 (truncate (wholeFloat n)))) := by
  have hread : readNumber? (Json.string s).display = some (wholeFloat n) := readNumber?_whole (by omega) h
  show runTextToNumber (.string s) o = _
  unfold runTextToNumber
  rw [wholeNumbers_integer ho]
  dsimp only [bind, Except.bind]
  rw [hread]
  rfl

end

/-- **A whole number that goes through text comes back as the nearest representable one**, cut to 64 bits, whatever
marks and blanks are put into the text. It is the same number exactly when it is representable or the largest. -/
theorem whole_number_through_text (n : ℤ) (hlo : -2 ^ 63 ≤ n) (hhi : n < 2 ^ 63) (o o' : Options)
    (ho : o'.get? "parseMode" = some (.string "integer")) :
    ∃ r, IsNearest n r ∧ (clampInt64 r = n ↔ Representable n ∨ n = 2 ^ 63 - 1) ∧
      (numberToText.run (.int n) o >>= fun text => textToNumber.run text o') = .ok (.int (clampInt64 r)) ∧
      ∀ t s : String, numberToText.run (.int n) o = .ok (.string t) → Punctuated t.toList s.toList →
        textToNumber.run (.string s) o' = .ok (.int (clampInt64 r)) := by
  have hnearest := (Decimal.wholeFloat_nearest (n := n) (by omega)).2
  have htext := numberToText_run hlo hhi o
  refine ⟨_, hnearest, Decimal.clampInt64_eq_iff hlo hhi hnearest, ?_, ?_⟩
  · rw [htext]
    exact textToNumber_run hlo hhi ho (.refl _)
  · rintro t s ht hs
    rw [htext] at ht
    cases ht
    exact textToNumber_run hlo hhi ho hs

/-- The largest number comes back, with a currency sign before it as well. -/
theorem whole_number_through_text_largest :
    let o : Options := ⟨[("parseMode", .string "integer")]⟩
    (-2 ^ 63 ≤ (2 ^ 63 - 1 : ℤ) ∧ (2 ^ 63 - 1 : ℤ) < 2 ^ 63 ∧ o.get? "parseMode" = some (.string "integer")) ∧
      numberToText.run (.int (2 ^ 63 - 1)) .empty = .ok (.string "9223372036854775807") ∧
      textToNumber.run (.string "9223372036854775807") o = .ok (.int (2 ^ 63 - 1)) ∧
      textToNumber.run (.string "€9223372036854775807") o = .ok (.int (2 ^ 63 - 1)) := by
  intro o
  have hlo : -2 ^ 63 ≤ (2 ^ 63 - 1 : ℤ) := by decide
  have hhi : (2 ^ 63 - 1 : ℤ) < 2 ^ 63 := by decide
  have ho : o.get? "parseMode" = some (.string "integer") := rfl
  obtain ⟨r, -, hsame, -, hread⟩ := whole_number_through_text (2 ^ 63 - 1) hlo hhi .empty o ho
  have htext : numberToText.run (.int (2 ^ 63 - 1)) .empty = .ok (.string "9223372036854775807") := by rfl
  rw [hsame.mpr (.inr rfl)] at hread
  exact ⟨⟨hlo, hhi, ho⟩, htext, hread _ _ htext (.refl _), hread _ _ htext (.insert (.inl (by decide)) (.refl _))⟩

/-- Above 2 ^ 53 not every number comes back, and a currency sign that is no mark is not taken out. -/
theorem whole_number_through_text_inexact :
    let o : Options := ⟨[("parseMode", .string "integer")]⟩
    numberToText.run (.int 9007199254740993) .empty = .ok (.string "9007199254740993") ∧
      textToNumber.run (.string "9007199254740993") o = .ok (.int 9007199254740992) ∧
      Json.int 9007199254740992 ≠ Json.int 9007199254740993 ∧
      numberToText.run (.int 5) .empty = .ok (.string "5") ∧ textToNumber.run (.string "₹5") o = .ok (.int 0) := by
  intro o
  have hnearest := (Decimal.wholeFloat_nearest (n := 9007199254740993) (by decide)).2
  have hrounded := hnearest.unique (Decimal.isNearest_leading 9007199254740993)
  have hread := textToNumber_run (n := 9007199254740993) (o := o) (by decide) (by decide) rfl (.refl _)
  rw [hrounded] at hread
  refine ⟨by rfl, hread, ?_, by rfl, by rfl⟩
  rw [int_eq_number (by decide) (by decide), int_eq_number (by decide) (by decide)]
  simp

end FieldBridge.Builtin

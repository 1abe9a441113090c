import FieldBridge.Decimal.Nearest
import FieldBridge.Proofs.Decimal.Shortest

/-!
# The text of a float

Reading the shortest decimal as it is written gives its value back, in either style and
either notation, so that two floats with one text are one float.
-/

namespace FieldBridge.Decimal

theorem isDigit_of_mem_toDigits {n : ℕ} {c : Char} (h : c ∈ Nat.toDigits 10 n) : c.isDigit = true :=
  Nat.isDigit_of_mem_toDigits (by decide) (by decide) h

theorem ofDigits_toDigits (n : ℕ) : Text.ofDigits (Nat.toDigits 10 n) = n := Nat.ofDigitChars_ten_toDigits

theorem ofDigits_append (cs ds : List Char) :
    Text.ofDigits (cs ++ ds) = 10 ^ ds.length * Text.ofDigits cs + Text.ofDigits ds := by
  show Nat.ofDigitChars 10 (cs ++ ds) 0 = _
  rw [Nat.ofDigitChars_append, Nat.ofDigitChars_eq_ofDigitChars_zero]
  rfl

theorem ofDigits_zeros (n : ℕ) : Text.ofDigits (List.replicate n '0') = 0 := by
  show Nat.ofDigitChars 10 _ 0 = 0
  simp

theorem ofDigits_dropZeros (ds : List Char) : Text.ofDigits (ds.dropWhile (· == '0')) = Text.ofDigits ds := by
  induction ds with
  | nil => rfl
  | cons d ds ih =>
    by_cases h : d = '0'
    · subst h
      rw [List.dropWhile_cons_of_pos (by rfl), ih]
      rfl
    · rw [List.dropWhile_cons_of_neg (by simpa using h)]

/-! ## Reading the parts of a number -/

/-- A text that does not go on with a character of a class. -/
def StopsAt (p : Char → Bool) (cs : List Char) : Prop := ∀ c ∈ cs.head?, p c = false

theorem stopsAt_nil (p : Char → Bool) : StopsAt p [] := fun _ h => by simp at h

theorem stopsAt_cons {p : Char → Bool} {c : Char} (h : p c = false) (cs : List Char) : StopsAt p (c :: cs) := by
  intro d hd
  obtain rfl : c = d := by simpa using hd
  exact h

theorem takeWhile_append_stop {p : Char → Bool} {ds cs : List Char} (hd : ∀ d ∈ ds, p d = true)
    (hc : StopsAt p cs) : (ds ++ cs).takeWhile p = ds := by
  rw [List.takeWhile_append_of_pos hd]
  cases cs with
  | nil => simp
  | cons c cs => simp [hc c rfl]

theorem dropWhile_append_stop {p : Char → Bool} {ds cs : List Char} (hd : ∀ d ∈ ds, p d = true)
    (hc : StopsAt p cs) : (ds ++ cs).dropWhile p = cs := by
  rw [List.dropWhile_append_of_pos hd]
  cases cs with
  | nil => simp
  | cons c cs => simp [hc c rfl]

/-- A text of one class ends where the class does. -/
theorem append_stop_inj {p : Char → Bool} {as bs s t : List Char} (ha : ∀ c ∈ as, p c = true)
    (hb : ∀ c ∈ bs, p c = true) (hs : StopsAt p s) (ht : StopsAt p t) (h : as ++ s = bs ++ t) :
    as = bs ∧ s = t := by
  constructor
  · rw [← takeWhile_append_stop ha hs, h, takeWhile_append_stop hb ht]
  · rw [← dropWhile_append_stop ha hs, h, dropWhile_append_stop hb ht]

theorem decimal?_whole {ds tail : List Char} (hne : ds ≠ []) (hd : ∀ d ∈ ds, d.isDigit = true)
    (ht : StopsAt Char.isDigit tail) (hp : ∀ cs, tail ≠ '.' :: cs) :
    decimal? (ds ++ tail) = (exponent? tail).map fun e => ⟨Text.ofDigits ds, e⟩ := by
  have hempty : ds.isEmpty = false := by simpa using hne
  unfold decimal?
  rw [takeWhile_append_stop hd ht, dropWhile_append_stop hd ht]
  simp only [hempty, Bool.false_and, Bool.false_eq_true, ↓reduceIte, List.append_nil, List.length_nil,
    Nat.cast_zero, sub_zero]

theorem decimal?_point {ds fs tail : List Char} (hne : ds ≠ []) (hd : ∀ d ∈ ds, d.isDigit = true)
    (hf : ∀ d ∈ fs, d.isDigit = true) (ht : StopsAt Char.isDigit tail) :
    decimal? (ds ++ '.' :: (fs ++ tail)) =
      (exponent? tail).map fun e => ⟨Text.ofDigits (ds ++ fs), e - fs.length⟩ := by
  have hpoint : StopsAt Char.isDigit ('.' :: (fs ++ tail)) := stopsAt_cons (by decide) _
  have hempty : ds.isEmpty = false := by simpa using hne
  unfold decimal?
  rw [takeWhile_append_stop hd hpoint, dropWhile_append_stop hd hpoint]
  simp only [takeWhile_append_stop hf ht, dropWhile_append_stop hf ht, hempty, Bool.false_and, Bool.false_eq_true,
    ↓reduceIte]

/-- Exponents of up to twelve digits are read as they are written. -/
theorem exponent?_spelled {n : ℕ} (hn : n < 10 ^ 12) {sign : List Char} (negative : Bool)
    (hs : takeSign (sign ++ Nat.toDigits 10 n) = (negative, Nat.toDigits 10 n)) :
    exponent? ('e' :: (sign ++ Nat.toDigits 10 n)) = some (if negative then -(n : ℤ) else n) := by
  have hall : (Nat.toDigits 10 n).all Char.isDigit = true :=
    List.all_eq_true.mpr fun _ => isDigit_of_mem_toDigits
  have hlen : (Nat.toDigits 10 n).length ≤ 12 := (Nat.length_toDigits_le_iff (by decide) (by decide)).mpr hn
  have htake : ((Nat.toDigits 10 n).dropWhile (· == '0')).take 12 = (Nat.toDigits 10 n).dropWhile (· == '0') :=
    List.take_of_length_le ((List.dropWhile_sublist _).length_le.trans hlen)
  unfold exponent?
  simp only [true_or, ↓reduceIte, hs, hall, htake, ofDigits_dropZeros, ofDigits_toDigits]
  simp

theorem takeSign_digits (n : ℕ) : takeSign (Nat.toDigits 10 n) = (false, Nat.toDigits 10 n) := by
  unfold takeSign
  split
  · rename_i cs h
    have : '-' ∈ Nat.toDigits 10 n := h ▸ List.mem_cons_self ..
    exact absurd (isDigit_of_mem_toDigits this) (by decide)
  · rename_i cs h
    have : '+' ∈ Nat.toDigits 10 n := h ▸ List.mem_cons_self ..
    exact absurd (isDigit_of_mem_toDigits this) (by decide)
  · rfl

/-! ## Reading a placed decimal -/

section
variable (d : Exact)

/-- The place of the first digit. -/
def Exact.leading : ℤ := d.exponent + digitCount d.digits - 1

theorem Exact.pow_leading_le (hd : 0 < d.digits) : (10 : ℚ) ^ d.leading ≤ d.value := by
  have hc : 1 ≤ digitCount d.digits := Nat.length_toDigits_pos
  have hle : ((10 ^ (digitCount d.digits - 1) : ℕ) : ℚ) ≤ d.digits := by exact_mod_cast pow_digitCount_le hd
  rw [Exact.leading, Exact.value, show d.exponent + digitCount d.digits - 1 =
    ((digitCount d.digits - 1 : ℕ) : ℤ) + d.exponent by omega, zpow_add₀ (by norm_num), zpow_natCast]
  push_cast at hle
  gcongr

theorem Exact.value_lt_pow : d.value < (10 : ℚ) ^ (d.leading + 1) := by
  have hlt : (d.digits : ℚ) < ((10 ^ digitCount d.digits : ℕ) : ℚ) := by exact_mod_cast lt_pow_digitCount d.digits
  rw [Exact.leading, Exact.value, show d.exponent + digitCount d.digits - 1 + 1 =
    (digitCount d.digits : ℤ) + d.exponent by ring, zpow_add₀ (by norm_num), zpow_natCast]
  push_cast at hlt
  gcongr

theorem isDigit_of_mem_zeros {n : ℕ} {c : Char} (h : c ∈ List.replicate n '0') : c.isDigit = true := by
  rw [(List.mem_replicate.mp h).2]
  rfl

variable {d} {ds : List Char}

theorem point_reads (ws fs tail : List Char) (hne : ws ≠ []) (hw : ∀ c ∈ ws, c.isDigit = true)
    (hf : ∀ c ∈ fs, c.isDigit = true) {e : ℤ} (ht : StopsAt Char.isDigit tail)
    (he : exponent? tail = some e) (hv : (Text.ofDigits (ws ++ fs) : ℚ) * 10 ^ (e - fs.length) = d.value) :
    ∃ r, decimal? (ws ++ '.' :: (fs ++ tail)) = some r ∧ r.value = d.value :=
  ⟨⟨_, _⟩, by rw [decimal?_point hne hw hf ht, he]; rfl, hv⟩

theorem plain_reads (hne : ds ≠ []) (hds : ∀ c ∈ ds, c.isDigit = true) (hof : Text.ofDigits ds = d.digits) {e : ℤ}
    {tail : List Char} (ht : StopsAt Char.isDigit tail) (hp : ∀ cs, tail ≠ '.' :: cs)
    (he : exponent? tail = some e) (hexp : e = d.exponent) :
    ∃ r, decimal? (ds ++ tail) = some r ∧ r.value = d.value :=
  ⟨⟨_, _⟩, by rw [decimal?_whole hne hds ht hp, he]; rfl, by rw [hof, hexp, Exact.value]⟩

theorem small_reads (hds : ∀ c ∈ ds, c.isDigit = true) (hof : Text.ofDigits ds = d.digits)
    (hneg : d.exponent + ds.length ≤ 0) :
    ∃ r, decimal? ('0' :: '.' :: (List.replicate (-d.exponent - ds.length).toNat '0' ++ ds)) = some r ∧
      r.value = d.value := by
  rw [← List.append_nil (_ ++ ds)]
  refine point_reads ['0'] _ [] (by simp) (by simp) ?_ (stopsAt_nil _) rfl ?_
  · intro c hc
    rcases List.mem_append.mp hc with h | h
    · exact isDigit_of_mem_zeros h
    · exact hds c h
  · have hdig : Text.ofDigits (['0'] ++ (List.replicate (-d.exponent - ds.length).toNat '0' ++ ds)) = d.digits := by
      rw [← List.append_assoc, ofDigits_append, hof, List.singleton_append, ← List.replicate_succ, ofDigits_zeros]
      omega
    have hexp : (0 : ℤ) - ((List.replicate (-d.exponent - ds.length).toNat '0' ++ ds).length : ℤ) = d.exponent := by
      rw [List.length_append, List.length_replicate]
      omega
    rw [hdig, hexp, Exact.value]

theorem whole_reads (hne : ds ≠ []) (hds : ∀ c ∈ ds, c.isDigit = true) (hof : Text.ofDigits ds = d.digits)
    (hexp : 0 ≤ d.exponent) :
    ∃ r, decimal? (ds ++ List.replicate d.exponent.toNat '0' ++ ['.', '0']) = some r ∧ r.value = d.value := by
  refine point_reads _ ['0'] [] (by simp [hne]) ?_ (by simp) (stopsAt_nil _) rfl ?_
  · intro c hc
    rcases List.mem_append.mp hc with h | h
    · exact hds c h
    · exact isDigit_of_mem_zeros h
  · have hdig : Text.ofDigits (ds ++ List.replicate d.exponent.toNat '0' ++ ['0']) =
        10 ^ (d.exponent.toNat + 1) * d.digits := by
      rw [List.append_assoc, ← List.replicate_succ', ofDigits_append, ofDigits_zeros, hof, List.length_replicate,
        Nat.add_zero]
    rw [hdig, Exact.value]
    push_cast
    rw [← zpow_natCast, Nat.cast_add, Int.toNat_of_nonneg hexp]
    simp only [List.length_singleton, Nat.cast_one, zero_sub]
    rw [mul_right_comm, ← zpow_add₀ (by norm_num), mul_comm]
    congr 2
    ring

theorem mixed_reads {n : ℕ} (hn : 1 ≤ n) (hlen : n ≤ ds.length) (hds : ∀ c ∈ ds, c.isDigit = true)
    (hof : Text.ofDigits ds = d.digits) {e : ℤ} {tail : List Char} (ht : StopsAt Char.isDigit tail)
    (he : exponent? tail = some e) (hexp : e + n = d.exponent + ds.length) :
    ∃ r, decimal? (ds.take n ++ '.' :: (ds.drop n ++ tail)) = some r ∧ r.value = d.value := by
  refine point_reads _ _ _ ?_ (fun c hc => hds c (List.mem_of_mem_take hc))
    (fun c hc => hds c (List.mem_of_mem_drop hc)) ht he ?_
  · rw [ne_eq, List.take_eq_nil_iff]
    rintro (h | h)
    · omega
    · rw [h] at hlen
      simp at hlen
      omega
  · rw [List.take_append_drop, hof, Exact.value, List.length_drop]
    congr 2
    omega

theorem exponent?_sign (style : FloatStyle) {e : ℤ} (he : e.natAbs < 10 ^ 12) :
    exponent? ('e' :: ((if e < 0 then "-" else if style.plus then "+" else "").toList ++
      Nat.toDigits 10 e.natAbs)) = some e := by
  split
  · rw [exponent?_spelled he true rfl]
    simp only [↓reduceIte, Option.some.injEq]
    omega
  · split
    · rw [exponent?_spelled he false rfl]
      simp only [Bool.false_eq_true, ↓reduceIte, Option.some.injEq]
      omega
    · rw [exponent?_spelled he false (takeSign_digits _)]
      simp only [Bool.false_eq_true, ↓reduceIte, Option.some.injEq]
      omega

/-- Both notations are read back with the value that was placed. -/
theorem place_reads (style : FloatStyle) (hlead : d.leading.natAbs < 10 ^ 12) :
    ∃ r, decimal? (style.place d).toList = some r ∧ r.value = d.value := by
  have hds : ∀ c ∈ Nat.toDigits 10 d.digits, c.isDigit = true := fun _ => isDigit_of_mem_toDigits
  have hne : Nat.toDigits 10 d.digits ≠ [] := Nat.toDigits_ne_nil
  have hlen : 1 ≤ (Nat.toDigits 10 d.digits).length := Nat.length_toDigits_pos
  have hof : Text.ofDigits (Nat.toDigits 10 d.digits) = d.digits := ofDigits_toDigits _
  have hlead' : d.leading = d.exponent + (Nat.toDigits 10 d.digits).length - 1 := rfl
  unfold FloatStyle.place
  simp only [← hlead']
  generalize Nat.toDigits 10 d.digits = ds at *
  split
  · split
    · have hzeros : (-d.leading - 1).toNat = (-d.exponent - ds.length).toNat := by omega
      have := small_reads (d := d) hds hof (by omega)
      simpa [hzeros] using this
    · by_cases hall : ds.length ≤ d.leading.toNat + 1
      · have htake : ds.take (d.leading.toNat + 1) = ds := List.take_of_length_le hall
        have hdrop : ds.drop (d.leading.toNat + 1) = [] := List.drop_of_length_le hall
        have hzeros : d.leading.toNat + 1 - ds.length = d.exponent.toNat := by omega
        have := whole_reads (d := d) hne hds hof (by omega)
        simpa [htake, hdrop, hzeros] using this
      · have hzeros : d.leading.toNat + 1 - min (d.leading.toNat + 1) ds.length = 0 := by omega
        have hdrop : (ds.drop (d.leading.toNat + 1)).isEmpty = false := by
          rw [List.isEmpty_eq_false_iff, ne_eq, List.drop_eq_nil_iff]; omega
        have := mixed_reads (d := d) (n := d.leading.toNat + 1) (by omega) (by omega) hds hof (stopsAt_nil _) rfl
          (by omega)
        simpa [hzeros, hdrop] using this
  · have hexp := exponent?_sign style hlead
    by_cases hone : ds.length ≤ 1
    · have htake : ds.take 1 = ds := List.take_of_length_le hone
      have := plain_reads (d := d) hne hds hof (stopsAt_cons (by decide) _) (by simp) hexp (by omega)
      simpa [hone, htake] using this
    · have := mixed_reads (d := d) (n := 1) (by omega) (by omega) hds hof (stopsAt_cons (by decide) _) hexp (by omega)
      simpa [hone] using this

end

/-! ## The text of a float -/

section
variable {b : Binary}

theorem two_zpow_le_ten_zpow (n : ℕ) : (2 : ℚ) ^ (n : ℤ) ≤ 10 ^ (n : ℤ) := by
  simpa using pow_le_pow_left₀ (by norm_num : (0 : ℚ) ≤ 2) (by norm_num) n

theorem Binary.upper_le (hb : b.Proper) : b.upper ≤ (10 : ℚ) ^ (1025 : ℤ) := by
  have hm : (b.mantissa + 1 : ℚ) ≤ 2 ^ (53 : ℤ) := by
    norm_num
    exact_mod_cast hb.mantissa_lt
  calc b.upper ≤ 2 ^ (53 : ℤ) * 2 ^ (972 : ℤ) := by
        unfold upper
        gcongr
        · linarith
        · norm_num
        · exact hb.most
    _ = 2 ^ (1025 : ℤ) := by rw [← zpow_add₀ (by norm_num)]; norm_num
    _ ≤ 10 ^ (1025 : ℤ) := two_zpow_le_ten_zpow 1025

theorem Binary.le_lower (hb : b.Proper) (hm : 0 < b.mantissa) : (10 : ℚ) ^ (-1075 : ℤ) ≤ b.lower := by
  have hone : (1 : ℚ) ≤ b.mantissa := by exact_mod_cast hm
  have hbelow : (b.below : ℚ) ≤ 2 := by exact_mod_cast b.below_le
  calc (10 : ℚ) ^ (-1075 : ℤ) ≤ 2 ^ (-1075 : ℤ) := by
        rw [zpow_neg, zpow_neg]
        exact inv_anti₀ (by positivity) (two_zpow_le_ten_zpow 1075)
    _ = 1 / 2 * 2 ^ (-1074 : ℤ) := by
        rw [show (-1075 : ℤ) = -1 + -1074 by norm_num, zpow_add₀ (by norm_num)]
        norm_num
    _ ≤ b.lower := mul_le_mul (by linarith) (zpow_le_zpow_right₀ (by norm_num) hb.least) (by positivity) (by linarith)

theorem shortest_value_pos (hb : b.Proper) (hm : 0 < b.mantissa) : 0 < (shortest b).value :=
  lt_of_lt_of_le (by positivity)
    ((Binary.le_lower hb hm).trans (Interval.between_of_holds hm (shortest_holds hb hm)).1)

theorem shortest_leading (hb : b.Proper) (hm : 0 < b.mantissa) : (shortest b).leading.natAbs < 10 ^ 12 := by
  obtain ⟨hlow, hhigh⟩ := Interval.between_of_holds hm (shortest_holds hb hm)
  have hpos : 0 < (shortest b).digits := by
    refine Nat.pos_of_ne_zero fun h => (shortest_value_pos hb hm).ne' ?_
    rw [Exact.value, h, Nat.cast_zero, zero_mul]
  have hle : (shortest b).leading ≤ 1025 := by
    rw [← zpow_le_zpow_iff_right₀ (by norm_num : (1 : ℚ) < 10)]
    exact ((Exact.pow_leading_le _ hpos).trans hhigh).trans (Binary.upper_le hb)
  have hge : -1075 < (shortest b).leading + 1 := by
    rw [← zpow_lt_zpow_iff_right₀ (by norm_num : (1 : ℚ) < 10)]
    exact lt_of_le_of_lt ((Binary.le_lower hb hm).trans hlow) (Exact.value_lt_pow _)
  omega

end

namespace FloatStyle

variable (style : FloatStyle)

/-- The text of a magnitude. -/
def body (b : Binary) : String := if b.mantissa = 0 then "0.0" else style.place (shortest b)

theorem text_eq (x : Float) :
    style.text x = (if (Binary.ofFloat x).negative then "-" else "") ++ style.body (Binary.ofFloat x) := by
  by_cases h : (Binary.ofFloat x).mantissa = 0 <;> simp [text, body, h]

theorem body_reads {b : Binary} (hb : b.Proper) :
    ∃ r, decimal? (style.body b).toList = some r ∧ r.value = if b.mantissa = 0 then 0 else (shortest b).value := by
  unfold body
  split
  · exact ⟨⟨0, -1⟩, by decide, by simp [Exact.value]⟩
  · rename_i hm
    exact place_reads style (shortest_leading hb (Nat.pos_of_ne_zero hm))

/-- **Two floats with one text are one float**, up to the sign, which stands in front. -/
theorem parts_eq_of_body {a b : Binary} (ha : a.Proper) (hb : b.Proper) (h : style.body a = style.body b) :
    a.mantissa = b.mantissa ∧ a.exponent = b.exponent := by
  obtain ⟨r, hr, hra⟩ := style.body_reads ha
  obtain ⟨s, hs, hsb⟩ := style.body_reads hb
  rw [h, hs, Option.some.injEq] at hr
  rw [← hr, hsb] at hra
  by_cases hma : a.mantissa = 0
  · by_cases hmb : b.mantissa = 0
    · exact ⟨by rw [hma, hmb], by rw [ha.small (by omega), hb.small (by omega)]⟩
    · rw [if_pos hma, if_neg hmb] at hra
      exact absurd hra (shortest_value_pos hb (Nat.pos_of_ne_zero hmb)).ne'
  · by_cases hmb : b.mantissa = 0
    · rw [if_neg hma, if_pos hmb] at hra
      exact absurd hra.symm (shortest_value_pos ha (Nat.pos_of_ne_zero hma)).ne'
    · rw [if_neg hma, if_neg hmb] at hra
      exact parts_eq_of_shortest ha hb (Nat.pos_of_ne_zero hma) (Nat.pos_of_ne_zero hmb) hra.symm

theorem decimal?_minus (cs : List Char) : decimal? ('-' :: cs) = none := by
  simp [decimal?, show ('-').isDigit = false by decide]

theorem body_ne_minus {b : Binary} (hb : b.Proper) (s : String) : "-" ++ s ≠ style.body b := by
  intro h
  obtain ⟨r, hr, _⟩ := style.body_reads hb
  rw [← h, String.toList_append] at hr
  have := decimal?_minus s.toList
  simp_all

theorem text_injective {x y : Float} (h : style.text x = style.text y) : x = y := by
  have hx := Binary.proper_ofFloat x
  have hy := Binary.proper_ofFloat y
  rw [text_eq, text_eq] at h
  apply Binary.ofFloat_injective
  cases hnx : (Binary.ofFloat x).negative <;> cases hny : (Binary.ofFloat y).negative <;>
    simp only [hnx, hny, Bool.false_eq_true, ↓reduceIte, String.empty_append] at h
  · obtain ⟨hm, he⟩ := style.parts_eq_of_body hx hy h
    exact Binary.eq_of_parts (hnx.trans hny.symm) hm he
  · exact absurd h.symm (style.body_ne_minus hx _)
  · exact absurd h (style.body_ne_minus hy _)
  · obtain ⟨hm, he⟩ := style.parts_eq_of_body hx hy ((String.append_right_inj _).mp h)
    exact Binary.eq_of_parts (hnx.trans hny.symm) hm he

end FloatStyle

/-! ## The characters of numbers -/

/-- The characters that numbers are written with. -/
def isNumeral (c : Char) : Bool := c.isDigit || c == '-' || c == '+' || c == '.' || c == 'e'

theorem isNumeral_of_mem_toDigits {n : ℕ} {c : Char} (h : c ∈ Nat.toDigits 10 n) : isNumeral c = true := by
  simp [isNumeral, isDigit_of_mem_toDigits h]

theorem isNumeral_of_all {cs : List Char} (h : cs.all isNumeral = true) : ∀ c ∈ cs, isNumeral c = true :=
  List.all_eq_true.mp h

namespace FloatStyle

variable (style : FloatStyle)

theorem isNumeral_of_mem_place (d : Exact) : ∀ c ∈ (style.place d).toList, isNumeral c = true := by
  have hds : ∀ c ∈ Nat.toDigits 10 d.digits, isNumeral c = true := fun _ => isNumeral_of_mem_toDigits
  have htake : ∀ n, ∀ c ∈ (Nat.toDigits 10 d.digits).take n, isNumeral c = true := fun n c hc =>
    hds c (List.mem_of_mem_take hc)
  have hdrop : ∀ n, ∀ c ∈ (Nat.toDigits 10 d.digits).drop n, isNumeral c = true := fun n c hc =>
    hds c (List.mem_of_mem_drop hc)
  have hzeros : ∀ n, ∀ c ∈ List.replicate n '0', isNumeral c = true := fun n c hc => by
    rw [(List.mem_replicate.mp hc).2]; decide
  have hexp : ∀ n : ℕ, ∀ c ∈ (toString n).toList, isNumeral c = true := fun n c hc => by
    rw [Nat.toString_eq_repr, Nat.toList_repr] at hc
    exact isNumeral_of_mem_toDigits hc
  have hsign : ∀ e : ℤ, ∀ c ∈ (if e < 0 then "-" else if style.plus then "+" else "").toList, isNumeral c = true := by
    intro e
    split
    · exact isNumeral_of_all (by decide)
    · split <;> exact isNumeral_of_all (by decide)
  unfold place
  simp only
  split
  · split
    · simp only [String.toList_append, String.toList_ofList, List.forall_mem_append]
      exact ⟨isNumeral_of_all (by decide), hzeros _, hds⟩
    · simp only [String.toList_append, String.toList_ofList, List.forall_mem_append]
      refine ⟨⟨⟨htake _, hzeros _⟩, isNumeral_of_all (by decide)⟩, ?_⟩
      split
      · exact isNumeral_of_all (by decide)
      · simpa using hdrop _
  · simp only [String.toList_append, String.toList_ofList, List.forall_mem_append]
    refine ⟨⟨⟨⟨htake _, ?_⟩, isNumeral_of_all (by decide)⟩, hsign _⟩, hexp _⟩
    split
    · exact isNumeral_of_all (by decide)
    · simp only [String.toList_append, String.toList_ofList, List.forall_mem_append]
      exact ⟨isNumeral_of_all (by decide), hdrop _⟩

/-- A float is never written with digits alone. -/
theorem mark_mem_place (d : Exact) : '.' ∈ (style.place d).toList ∨ 'e' ∈ (style.place d).toList := by
  unfold place
  simp only
  split
  · split <;> simp
  · simp

theorem isNumeral_of_mem_text {x : Float} {c : Char} (hc : c ∈ (style.text x).toList) : isNumeral c = true := by
  have hbody : ∀ b, ∀ c ∈ (style.body b).toList, isNumeral c = true := fun b c hc => by
    unfold body at hc
    split at hc
    · exact isNumeral_of_all (by decide) c hc
    · exact style.isNumeral_of_mem_place _ c hc
  rw [text_eq, String.toList_append, List.mem_append] at hc
  rcases hc with hc | hc
  · split at hc
    · exact isNumeral_of_all (by decide) c hc
    · simp at hc
  · exact hbody _ c hc

theorem mark_mem_text (x : Float) : '.' ∈ (style.text x).toList ∨ 'e' ∈ (style.text x).toList := by
  have hbody : ∀ b, '.' ∈ (style.body b).toList ∨ 'e' ∈ (style.body b).toList := fun b => by
    unfold body
    split
    · left; decide
    · exact style.mark_mem_place _
  rw [text_eq, String.toList_append]
  simp only [List.mem_append]
  exact (hbody _).imp Or.inr Or.inr

end FloatStyle

end FieldBridge.Decimal

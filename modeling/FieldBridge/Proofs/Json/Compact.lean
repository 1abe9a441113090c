import FieldBridge.Json.Parser
import FieldBridge.Json.Printer
import FieldBridge.Proofs.Decimal.Text
import FieldBridge.Proofs.Json.Value

/-!
# The compact form can be taken apart again

Strings are closed by the first quote that is not escaped, arrays and objects by the
bracket that opened with them, and numbers by the first character that no number
has. So the compact form of a value, followed by anything that does not go on with a
number, tells the value and what follows it.
-/

namespace FieldBridge

open Decimal

/-! ## Numbers -/

namespace Number

theorem toList_toString_int (n : ℤ) :
    (toString n).toList = (if n < 0 then ['-'] else []) ++ Nat.toDigits 10 n.natAbs := by
  cases n with
  | ofNat n =>
    have h : ¬Int.ofNat n < 0 := by simp
    rw [if_neg h]
    exact Nat.toList_repr
  | negSucc n =>
    rw [if_pos (Int.negSucc_lt_zero n)]
    show ("-" ++ Nat.repr n.succ).toList = _
    rw [String.toList_append, Nat.toList_repr]
    rfl

theorem isNumeral_of_mem_text {n : Number} {c : Char} (hc : c ∈ n.text.toList) : isNumeral c = true := by
  cases n with
  | float x hx => exact floatStyle.isNumeral_of_mem_text hc
  | int n hn =>
    rw [text, toList_toString_int, List.mem_append] at hc
    rcases hc with hc | hc
    · split at hc
      · exact isNumeral_of_all (by decide) c hc
      · cases hc
    · exact isNumeral_of_mem_toDigits hc

theorem text_ne_nil (n : Number) : n.text.toList ≠ [] := by
  cases n with
  | float x hx =>
    intro h
    have : '.' ∈ (floatStyle.text x).toList ∨ 'e' ∈ (floatStyle.text x).toList := floatStyle.mark_mem_text x
    rw [text] at h
    simp [h] at this
  | int n hn =>
    rw [text, toList_toString_int, ne_eq, List.append_eq_nil_iff]
    exact fun h => Nat.toDigits_ne_nil h.2

/-- A whole number has neither a point nor an exponent, and a float has one of them. -/
theorem int_text_ne_float_text (n : ℤ) (x : Float) : toString n ≠ floatStyle.text x := by
  intro h
  have hplain : ∀ c ∈ (toString n).toList, c = '-' ∨ c.isDigit = true := fun c hc => by
    rw [toList_toString_int, List.mem_append] at hc
    rcases hc with hc | hc
    · split at hc
      · exact Or.inl (List.mem_singleton.mp hc)
      · cases hc
    · exact Or.inr (isDigit_of_mem_toDigits hc)
  rw [h] at hplain
  rcases floatStyle.mark_mem_text x with hm | hm
  · exact absurd (hplain _ hm) (by decide)
  · exact absurd (hplain _ hm) (by decide)

theorem toString_int_injective {m n : ℤ} (h : toString m = toString n) : m = n := by
  have hdash : ∀ k, '-' ∉ Nat.toDigits 10 k := fun k hk => absurd (isDigit_of_mem_toDigits hk) (by decide)
  have hl := congrArg String.toList h
  rw [toList_toString_int, toList_toString_int] at hl
  have hinj : ∀ {j k : ℕ}, Nat.toDigits 10 j = Nat.toDigits 10 k → j = k := fun {j k} h => by
    rw [← ofDigits_toDigits j, h, ofDigits_toDigits]
  by_cases hm : m < 0 <;> by_cases hn : n < 0 <;> simp only [hm, hn, ↓reduceIte, List.nil_append] at hl
  · have := hinj (List.append_cancel_left hl)
    omega
  · exact absurd (hl ▸ List.mem_cons_self ..) (hdash n.natAbs)
  · exact absurd (hl ▸ List.mem_cons_self ..) (hdash m.natAbs)
  · have := hinj hl
    omega

theorem text_injective {m n : Number} (h : m.text = n.text) : m = n := by
  cases m with
  | int m hm =>
    cases n with
    | int n hn =>
      obtain rfl : m = n := toString_int_injective h
      rfl
    | float y hy => exact absurd h (int_text_ne_float_text m y)
  | float x hx =>
    cases n with
    | int n hn => exact absurd h.symm (int_text_ne_float_text n x)
    | float y hy =>
      obtain rfl : x = y := floatStyle.text_injective h
      rfl

end Number

namespace Json

/-! ## Strings -/

theorem hex4?_control : ∀ n < 0x20, hex4? '0' '0' (hexDigit (n / 16)) (hexDigit (n % 16)) = some n := by decide

/-- An escaped character is read as itself. -/
theorem stringBody_escapeChar (c : Char) (cs : List Char) :
    stringBody (escapeChar c ++ cs) = (stringBody cs).map fun (s, t) => (c :: s, t) := by
  unfold escapeChar
  split
  · rename_i h; subst h; rfl
  split
  · rename_i h; subst h; rfl
  split
  · rename_i h; subst h; rfl
  split
  · rename_i h; subst h; rfl
  split
  · rename_i h; subst h; rfl
  split
  · rename_i h; subst h; rfl
  split
  · rename_i h; subst h; rfl
  split
  · rename_i h
    have hn : isLeadingSurrogate c.toNat = false ∧ isTrailingSurrogate c.toNat = false := by
      simp only [isLeadingSurrogate, isTrailingSurrogate, Bool.and_eq_false_iff, decide_eq_false_iff_not]
      omega
    simp only [List.cons_append, List.nil_append, stringBody, hex4?_control c.toNat h, hn, Bool.false_eq_true,
      ↓reduceIte, Char.ofNat_toNat]
  · rename_i hq hb _ _ _ _ _ hc
    rw [List.singleton_append, stringBody]
    · simp [hc, hb]
    · exact hq
    all_goals simp [hb]

theorem stringBody_flatMap (cs rest : List Char) :
    stringBody (cs.flatMap escapeChar ++ '"' :: rest) = some (cs, rest) := by
  induction cs with
  | nil => simp [stringBody]
  | cons c cs ih => rw [List.flatMap_cons, List.append_assoc, stringBody_escapeChar, ih]; rfl

theorem quoted_append_inj {s t : String} {cs ds : List Char} (h : quoted s ++ cs = quoted t ++ ds) :
    s = t ∧ cs = ds := by
  simp only [quoted, List.cons_append, List.append_assoc, List.nil_append, List.cons.injEq, true_and] at h
  have hs := stringBody_flatMap s.toList cs
  rw [h, stringBody_flatMap, Option.some.injEq, Prod.mk.injEq] at hs
  exact ⟨String.toList_inj.mp hs.1.symm, hs.2.symm⟩

/-! ## Values -/

/-- A value followed by such a text ends where the text begins. -/
abbrev Closed (cs : List Char) : Prop := StopsAt isNumeral cs

theorem closed_moreItems (items : List Json) (cs : List Char) : Closed (charsMoreItems items ++ cs) := by
  cases items <;> exact stopsAt_cons (by decide) _

theorem closed_moreMembers (members : List (String × Json)) (cs : List Char) :
    Closed (charsMoreMembers members ++ cs) := by
  obtain _ | ⟨⟨k, v⟩, members⟩ := members <;> exact stopsAt_cons (by decide) _

/-- A number begins with a character of numbers, and no other value does. -/
theorem number_chars_ne (n : Number) (s : List Char) {c : Char} (hc : isNumeral c = false) (cs : List Char) :
    chars (number n) ++ s ≠ c :: cs := by
  intro h
  rw [chars] at h
  cases hn : n.text.toList with
  | nil => exact n.text_ne_nil hn
  | cons d ds =>
    have hd : isNumeral d = true := Number.isNumeral_of_mem_text (hn ▸ List.mem_cons_self ..)
    rw [hn, List.cons_append, List.cons.injEq] at h
    rw [h.1, hc] at hd
    cases hd

theorem chars_ne_bracket (v : Json) (s cs : List Char) : chars v ++ s ≠ ']' :: cs := by
  cases v with
  | bool b => cases b <;> simp [chars]
  | number n => exact number_chars_ne n s (by decide) cs
  | _ => simp [chars, quoted]

/-- The text of a value tells the value, whatever follows. -/
def Told (v : Json) : Prop :=
  ∀ w s t, Closed s → Closed t → chars v ++ s = chars w ++ t → v = w ∧ s = t

section
variable {items others : List Json} {members fields : List (String × Json)} {s t : List Char}

theorem moreItems_append_inj (h : ∀ v ∈ items, Told v) (he : charsMoreItems items ++ s = charsMoreItems others ++ t) :
    items = others ∧ s = t := by
  induction items generalizing others with
  | nil =>
    cases others with
    | nil => simpa [charsMoreItems] using he
    | cons w others => simp [charsMoreItems] at he
  | cons v items ih =>
    cases others with
    | nil => simp [charsMoreItems] at he
    | cons w others =>
      simp only [charsMoreItems, List.cons_append, List.append_assoc, List.cons.injEq, true_and] at he
      obtain ⟨rfl, hrest⟩ := h v (List.mem_cons_self ..) w _ _ (closed_moreItems _ _) (closed_moreItems _ _) he
      obtain ⟨rfl, hst⟩ := ih (fun u hu => h u (List.mem_cons_of_mem _ hu)) hrest
      exact ⟨rfl, hst⟩

theorem items_append_inj (h : ∀ v ∈ items, Told v) (he : charsItems items ++ s = charsItems others ++ t) :
    items = others ∧ s = t := by
  cases items with
  | nil =>
    cases others with
    | nil => simpa [charsItems] using he
    | cons w others =>
      rw [charsItems, charsItems, List.append_assoc] at he
      exact absurd he.symm (chars_ne_bracket w _ _)
  | cons v items =>
    cases others with
    | nil =>
      rw [charsItems, charsItems, List.append_assoc] at he
      exact absurd he (chars_ne_bracket v _ _)
    | cons w others =>
      simp only [charsItems, List.append_assoc] at he
      obtain ⟨rfl, hrest⟩ := h v (List.mem_cons_self ..) w _ _ (closed_moreItems _ _) (closed_moreItems _ _) he
      obtain ⟨rfl, hst⟩ := moreItems_append_inj (fun u hu => h u (List.mem_cons_of_mem _ hu)) hrest
      exact ⟨rfl, hst⟩

theorem member_append_inj {k l : String} {v w : Json} (hv : Told v) (hs : Closed s) (ht : Closed t)
    (he : quoted k ++ ':' :: (chars v ++ s) = quoted l ++ ':' :: (chars w ++ t)) : (k, v) = (l, w) ∧ s = t := by
  obtain ⟨rfl, hrest⟩ := quoted_append_inj he
  obtain ⟨rfl, hst⟩ := hv w s t hs ht (List.cons.inj hrest).2
  exact ⟨rfl, hst⟩

theorem moreMembers_append_inj (h : ∀ p ∈ members, Told p.2)
    (he : charsMoreMembers members ++ s = charsMoreMembers fields ++ t) : members = fields ∧ s = t := by
  induction members generalizing fields with
  | nil =>
    cases fields with
    | nil => simpa [charsMoreMembers] using he
    | cons q fields => simp [charsMoreMembers] at he
  | cons p members ih =>
    cases fields with
    | nil => simp [charsMoreMembers] at he
    | cons q fields =>
      simp only [charsMoreMembers, List.cons_append, List.append_assoc, List.cons.injEq, true_and] at he
      obtain ⟨hpq, hrest⟩ := member_append_inj (h p (List.mem_cons_self ..)) (closed_moreMembers _ _)
        (closed_moreMembers _ _) he
      obtain ⟨rfl, hst⟩ := ih (fun u hu => h u (List.mem_cons_of_mem _ hu)) hrest
      exact ⟨by rw [show p = q from hpq], hst⟩

theorem members_append_inj (h : ∀ p ∈ members, Told p.2)
    (he : charsMembers members ++ s = charsMembers fields ++ t) : members = fields ∧ s = t := by
  cases members with
  | nil =>
    cases fields with
    | nil => simpa [charsMembers] using he
    | cons q fields => simp [charsMembers, quoted] at he
  | cons p members =>
    cases fields with
    | nil => simp [charsMembers, quoted] at he
    | cons q fields =>
      simp only [charsMembers, List.append_assoc, List.cons_append] at he
      obtain ⟨hpq, hrest⟩ := member_append_inj (h p (List.mem_cons_self ..)) (closed_moreMembers _ _)
        (closed_moreMembers _ _) he
      obtain ⟨rfl, hst⟩ := moreMembers_append_inj (fun u hu => h u (List.mem_cons_of_mem _ hu)) hrest
      exact ⟨by rw [show p = q from hpq], hst⟩

end

theorem told (v : Json) : Told v := by
  induction v using induct with
  | null =>
    intro w s t _ _ he
    cases w with
    | null => simpa [chars] using he
    | bool b => cases b <;> simp [chars] at he
    | number n => exact absurd he.symm (number_chars_ne n t (by decide) _)
    | _ => simp [chars, quoted] at he
  | bool b =>
    intro w s t _ _ he
    cases w with
    | bool b' => cases b <;> cases b' <;> simp_all [chars]
    | number n => cases b <;> exact absurd he.symm (number_chars_ne n t (by decide) _)
    | _ => cases b <;> simp [chars, quoted] at he
  | number n =>
    intro w s t hs ht he
    cases w with
    | number m =>
      obtain ⟨hnm, hst⟩ := append_stop_inj (fun _ => Number.isNumeral_of_mem_text)
        (fun _ => Number.isNumeral_of_mem_text) hs ht he
      exact ⟨congrArg number (Number.text_injective (String.toList_inj.mp hnm)), hst⟩
    | bool b => cases b <;> exact absurd he (number_chars_ne n s (by decide) _)
    | _ => exact absurd he (number_chars_ne n s (by decide) _)
  | string a =>
    intro w s t _ _ he
    cases w with
    | string b =>
      obtain ⟨rfl, hst⟩ := quoted_append_inj he
      exact ⟨rfl, hst⟩
    | bool b => cases b <;> simp [chars, quoted] at he
    | number n => exact absurd he.symm (number_chars_ne n t (by decide) _)
    | _ => simp [chars, quoted] at he
  | array items ih =>
    intro w s t _ _ he
    cases w with
    | array others =>
      obtain ⟨rfl, hst⟩ := items_append_inj ih (List.cons.inj he).2
      exact ⟨rfl, hst⟩
    | bool b => cases b <;> simp [chars] at he
    | number n => exact absurd he.symm (number_chars_ne n t (by decide) _)
    | _ => simp [chars, quoted] at he
  | object members ih =>
    intro w s t _ _ he
    cases w with
    | object fields =>
      obtain ⟨rfl, hst⟩ := members_append_inj ih (List.cons.inj he).2
      exact ⟨rfl, hst⟩
    | bool b => cases b <;> simp [chars] at he
    | number n => exact absurd he.symm (number_chars_ne n t (by decide) _)
    | _ => simp [chars, quoted] at he

/-- **The compact form is injective.** -/
theorem compact_injective {v w : Json} (h : v.compact = w.compact) : v = w := by
  have hl : chars v ++ [] = chars w ++ [] := by
    rw [List.append_nil, List.append_nil]
    exact String.ofList_injective h
  exact (told v w [] [] (stopsAt_nil _) (stopsAt_nil _) hl).1

/-! ## Control characters

The compact form has none: in strings they are escaped.
-/

theorem printed_of_all {cs : List Char} (h : (cs.all fun c => 0x20 ≤ c.toNat) = true) : ∀ c ∈ cs, 0x20 ≤ c.toNat :=
  fun c hc => of_decide_eq_true (List.all_eq_true.mp h c hc)

theorem escapeChar_printed (c : Char) : ∀ d ∈ escapeChar c, 0x20 ≤ d.toNat := by
  have hhex : ∀ n < 16, 0x20 ≤ (hexDigit n).toNat := by decide
  unfold escapeChar
  iterate 7
    split
    · exact printed_of_all (by decide)
  split
  · have h1 := hhex (c.toNat / 16) (by omega)
    have h2 := hhex (c.toNat % 16) (Nat.mod_lt _ (by decide))
    simp [h1, h2]
  · simp only [List.mem_singleton, forall_eq]
    omega

theorem quoted_printed (s : String) : ∀ c ∈ quoted s, 0x20 ≤ c.toNat := by
  intro c hc
  simp only [quoted, List.mem_append, List.mem_cons, List.mem_flatMap, List.not_mem_nil, or_false] at hc
  rcases hc with (rfl | ⟨d, _, hd⟩) | rfl
  · decide
  · exact escapeChar_printed d c hd
  · decide

theorem printed_of_isNumeral {c : Char} (h : isNumeral c = true) : 0x20 ≤ c.toNat := by
  simp only [isNumeral, Bool.or_eq_true, beq_iff_eq] at h
  rcases h with (((h | rfl) | rfl) | rfl) | rfl
  · simp only [Char.isDigit, Bool.and_eq_true, decide_eq_true_eq] at h
    have : '0'.toNat ≤ c.toNat := h.1
    exact le_trans (by decide) this
  all_goals decide

theorem chars_printed (v : Json) : ∀ c ∈ chars v, 0x20 ≤ c.toNat := by
  induction v using induct with
  | null => exact printed_of_all (by decide)
  | bool b => cases b <;> exact printed_of_all (by decide)
  | number n => exact fun c hc => printed_of_isNumeral (Number.isNumeral_of_mem_text hc)
  | string s => exact quoted_printed s
  | array items ih =>
    have hmore : ∀ rest : List Json, (∀ v ∈ rest, ∀ c ∈ chars v, 0x20 ≤ c.toNat) →
        ∀ c ∈ charsMoreItems rest, 0x20 ≤ c.toNat := fun rest hr => by
      induction rest with
      | nil => exact printed_of_all (by decide)
      | cons v rest ihr =>
        simp only [charsMoreItems, List.cons_append, List.forall_mem_cons, List.forall_mem_append] at hr ⊢
        exact ⟨by decide, hr.1, ihr hr.2⟩
    cases items with
    | nil => exact printed_of_all (by decide)
    | cons v items =>
      simp only [chars, charsItems, List.forall_mem_cons, List.forall_mem_append] at ih ⊢
      exact ⟨by decide, ih.1, hmore items ih.2⟩
  | object members ih =>
    have hmore : ∀ rest : List (String × Json), (∀ p ∈ rest, ∀ c ∈ chars p.2, 0x20 ≤ c.toNat) →
        ∀ c ∈ charsMoreMembers rest, 0x20 ≤ c.toNat := fun rest hr => by
      induction rest with
      | nil => exact printed_of_all (by decide)
      | cons p rest ihr =>
        simp only [charsMoreMembers, List.cons_append, List.append_assoc, List.forall_mem_cons,
          List.forall_mem_append] at hr ⊢
        exact ⟨by decide, quoted_printed _, by decide, hr.1, ihr hr.2⟩
    cases members with
    | nil => exact printed_of_all (by decide)
    | cons p members =>
      simp only [chars, charsMembers, List.cons_append, List.append_assoc, List.forall_mem_cons,
        List.forall_mem_append] at ih ⊢
      exact ⟨by decide, quoted_printed _, by decide, ih.1, hmore members ih.2⟩

end Json

end FieldBridge

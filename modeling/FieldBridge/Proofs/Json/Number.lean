import FieldBridge.Proofs.Json.Compact

/-!
# Numbers are read from the front of a text

Reading a number looks at what follows it only to see that the number is over, so
what follows can be replaced by anything that does not go on with it. A whole number
is read back from its digits; of a float that is an assumption on the text, as its
digits need not be those that the reader rounds back to it.
-/

namespace FieldBridge
open Decimal

/-! ## What can follow a number -/

/-- A text in which no number that stands before it goes on. -/
def Apart (cs : List Char) : Prop := StopsAt (fun c => isNumeral c || c == 'E') cs

theorem StopsAt.mono {p q : Char → Bool} (h : ∀ c, q c = true → p c = true) {cs : List Char} (hp : StopsAt p cs) :
    StopsAt q cs := by
  intro c hc
  have hfalse := hp c hc
  cases hq : q c with
  | false => rfl
  | true => rw [h c hq] at hfalse; cases hfalse

/-- What stops a class of characters is not taken with those before it. -/
theorem takeWhile_append_stopsAt {p : Char → Bool} (ds : List Char) {rest : List Char} (h : StopsAt p rest) :
    (ds ++ rest).takeWhile p = ds.takeWhile p := by
  induction ds with
  | nil => exact takeWhile_append_stop (by simp) h
  | cons d ds ih => simp only [List.cons_append, List.takeWhile_cons, ih]

theorem dropWhile_append_stopsAt {p : Char → Bool} (ds : List Char) {rest : List Char} (h : StopsAt p rest) :
    (ds ++ rest).dropWhile p = ds.dropWhile p ++ rest := by
  induction ds with
  | nil => exact dropWhile_append_stop (by simp) h
  | cons d ds ih =>
    simp only [List.cons_append, List.dropWhile_cons, ih]
    split <;> rfl

namespace Apart
variable {rest : List Char} (h : Apart rest)
include h

theorem digits : StopsAt Char.isDigit rest := StopsAt.mono (by simp +contextual [isNumeral]) h

theorem head_ne {c : Char} (hc : (isNumeral c || c == 'E') = true) (cs : List Char) : rest ≠ c :: cs := by
  rintro rfl
  have hstop : (isNumeral c || c == 'E') = false := h c rfl
  rw [hstop] at hc
  cases hc

end Apart

theorem apart_nil : Apart [] := stopsAt_nil _

theorem apart_cons {c : Char} (h : (isNumeral c || c == 'E') = false) (cs : List Char) : Apart (c :: cs) :=
  stopsAt_cons (p := fun c => isNumeral c || c == 'E') h cs

/-! ## The parts of a number -/

section
variable {rest : List Char} (h : Apart rest)
include h

theorem takeSign_append (cs : List Char) :
    takeSign (cs ++ rest) = ((takeSign cs).1, (takeSign cs).2 ++ rest) := by
  cases cs with
  | nil =>
    rw [List.nil_append]
    unfold takeSign
    split
    · exact absurd rfl (h.head_ne (by decide) _)
    · exact absurd rfl (h.head_ne (by decide) _)
    · rfl
  | cons c cs =>
    unfold takeSign
    grind

namespace Number

theorem exponentPart_append (cs : List Char) :
    exponentPart (cs ++ rest) = (exponentPart cs).map fun (e, t) => (e, t ++ rest) := by
  cases cs with
  | nil =>
    rw [List.nil_append]
    cases rest with
    | nil => rfl
    | cons c rest =>
      have hc : ¬(c = 'e' ∨ c = 'E') := by
        rintro (rfl | rfl)
        · exact absurd rfl (h.head_ne (by decide) _)
        · exact absurd rfl (h.head_ne (by decide) _)
      simp [exponentPart, hc]
  | cons c cs =>
    simp only [List.cons_append, exponentPart, takeSign_append h, takeWhile_append_stopsAt _ h.digits,
      dropWhile_append_stopsAt _ h.digits]
    split
    · split <;> rfl
    · rfl

omit h in
/-- Without a point, only the exponent and what follows it is looked at. -/
theorem afterWhole_plain (negative : Bool) (ds : List Char) : ∃ value : Int → Bool → Option Number,
    ∀ cs, (∀ more, cs ≠ '.' :: more) → afterWhole negative ds cs =
      (exponentPart cs).bind fun p => (value p.1 (p.2.length == cs.length)).map fun n => (n, p.2) := by
  refine ⟨fun e same =>
    if (significand 0 ds).2.isEmpty && same &&
        !(negative && ((significand 0 ds).1 == 0 || 0x8000000000000000 < (significand 0 ds).1)) then
      ofInt? (if negative then -((significand 0 ds).1 : Int) else (significand 0 ds).1)
    else scaled? negative (significand 0 ds).1 (e + (significand 0 ds).2.length), fun cs hcs => ?_⟩
  unfold afterWhole
  dsimp only
  split
  · exact absurd rfl (hcs _)
  · cases exponentPart cs with
    | none => rfl
    | some p =>
      simp only [Option.bind_eq_bind, Option.bind_some]
      split
      · generalize ofInt? _ = n
        cases n <;> rfl
      · generalize scaled? _ _ _ = n
        cases n <;> rfl

omit h in
/-- With a point, the digits after it count too. -/
theorem afterWhole_point (negative : Bool) (ds : List Char) : ∃ value : List Char → Int → Option Number,
    ∀ more, afterWhole negative ds ('.' :: more) =
      if (more.takeWhile Char.isDigit).isEmpty then none
      else (exponentPart (more.dropWhile Char.isDigit)).bind fun p =>
        (value (more.takeWhile Char.isDigit) p.1).map fun n => (n, p.2) := by
  refine ⟨fun fs e => scaled? negative (significand (significand 0 ds).1 fs).1
    (e + (significand 0 ds).2.length - (fs.length - (significand (significand 0 ds).1 fs).2.length : Nat)),
    fun more => ?_⟩
  unfold afterWhole
  dsimp only
  split
  · rename_i heq
    cases heq
    split
    · rfl
    · cases exponentPart (more.dropWhile Char.isDigit) with
      | none => rfl
      | some p =>
        simp only [Option.bind_eq_bind, Option.bind_some]
        generalize scaled? _ _ _ = n
        cases n <;> rfl
  · rename_i hne
    exact absurd rfl (hne more)

theorem afterWhole_append (negative : Bool) (ds cs : List Char) :
    afterWhole negative ds (cs ++ rest) = (afterWhole negative ds cs).map fun (n, t) => (n, t ++ rest) := by
  by_cases hpoint : ∃ more, cs = '.' :: more
  · obtain ⟨more, rfl⟩ := hpoint
    obtain ⟨value, hvalue⟩ := afterWhole_point negative ds
    rw [List.cons_append, hvalue, hvalue, takeWhile_append_stopsAt _ h.digits, dropWhile_append_stopsAt _ h.digits,
      exponentPart_append h]
    split
    · rfl
    · cases exponentPart (more.dropWhile Char.isDigit) with
      | none => rfl
      | some p => cases hv : value (more.takeWhile Char.isDigit) p.1 <;> simp [hv]
  · have hcs : ∀ more, cs ≠ '.' :: more := fun more hm => hpoint ⟨more, hm⟩
    have happ : ∀ more, cs ++ rest ≠ '.' :: more := by
      intro more
      cases cs with
      | nil => exact h.head_ne (by decide) more
      | cons c cs =>
        intro hm
        exact hcs cs (by rw [(List.cons.inj hm).1])
    obtain ⟨value, hvalue⟩ := afterWhole_plain negative ds
    rw [hvalue _ happ, hvalue _ hcs, exponentPart_append h]
    cases exponentPart cs with
    | none => rfl
    | some p =>
      have hsame : ((p.2 ++ rest).length == (cs ++ rest).length) = (p.2.length == cs.length) := by simp
      rw [Option.map_some, Option.bind_some, Option.bind_some, hsame]
      cases value p.1 (p.2.length == cs.length) <;> rfl

omit h in
/-- A number is a sign, if it is below zero, and what begins with a digit. -/
theorem parse_signed (negative : Bool) {c : Char} (hc : c.isDigit = true) (cs : List Char) :
    parse ((if negative then ['-'] else []) ++ c :: cs) =
      if c = '0' then (if (cs.head?.map Char.isDigit).getD false then none else afterWhole negative ['0'] cs)
      else afterWhole negative (c :: cs.takeWhile Char.isDigit) (cs.dropWhile Char.isDigit) := by
  have hminus : c ≠ '-' := by
    rintro rfl
    cases hc
  unfold parse
  cases negative <;> by_cases h0 : c = '0' <;> simp [h0, hc, hminus]

omit h in
theorem exists_digit_of_parse {cs t : List Char} {n : Number} (hp : parse cs = some (n, t)) :
    ∃ (negative : Bool) (c : Char) (ds : List Char), c.isDigit = true ∧
      cs = (if negative then ['-'] else []) ++ c :: ds := by
  have hzero : ∀ c : Char, c.isDigit = false → c ≠ '0' := by
    rintro c hc rfl
    cases hc
  cases cs with
  | nil => cases hp
  | cons c cs =>
    by_cases hminus : c = '-'
    · subst hminus
      cases cs with
      | nil => cases hp
      | cons d ds =>
        refine ⟨true, d, ds, ?_, rfl⟩
        by_contra hd
        simp [parse, hzero d (by simpa using hd), hd] at hp
    · refine ⟨false, c, cs, ?_, rfl⟩
      by_contra hc
      simp [parse, hminus, hzero c (by simpa using hc), hc] at hp

/-- What stands after a number does not change how it is read. -/
theorem parse_append {cs t : List Char} {n : Number} (hp : parse cs = some (n, t)) :
    parse (cs ++ rest) = some (n, t ++ rest) := by
  obtain ⟨negative, c, ds, hc, rfl⟩ := exists_digit_of_parse hp
  rw [parse_signed negative hc] at hp
  rw [List.append_assoc, List.cons_append, parse_signed negative hc, takeWhile_append_stopsAt _ h.digits,
    dropWhile_append_stopsAt _ h.digits]
  split
  · rename_i h0
    rw [if_pos h0] at hp
    split at hp
    · cases hp
    · rename_i hhead
      have happ : ¬((ds ++ rest).head?.map Char.isDigit).getD false = true := by
        cases ds with
        | nil =>
          cases rest with
          | nil => simp
          | cons d rest => simpa using h.digits d rfl
        | cons d ds => simpa using hhead
      rw [if_neg happ, afterWhole_append h, hp]
      rfl
  · rename_i h0
    rw [if_neg h0] at hp
    rw [afterWhole_append h, hp]
    rfl

omit h in
/-- Digits of at most 64 bits are all kept. -/
theorem significand_eq {ds : List Char} {n : Nat}
    (hlt : ds.foldl (fun n c => 10 * n + Text.digitValue c) n < 0x10000000000000000) :
    significand n ds = (ds.foldl (fun n c => 10 * n + Text.digitValue c) n, []) := by
  have hmono : ∀ (ds : List Char) (n : Nat), n ≤ ds.foldl (fun n c => 10 * n + Text.digitValue c) n := by
    intro ds
    induction ds with
    | nil => exact fun n => Nat.le_refl n
    | cons d ds ih =>
      intro n
      have hmore := ih (10 * n + Text.digitValue d)
      rw [List.foldl_cons]
      omega
  induction ds generalizing n with
  | nil => rfl
  | cons d ds ih =>
    rw [List.foldl_cons] at hlt ⊢
    have hstep := hmono ds (10 * n + Text.digitValue d)
    rw [significand, if_pos (by omega), ih hlt]

omit h in
/-- The digits of a number begin with a zero only if it is zero. -/
theorem toDigits_ne_zero_cons : ∀ {n : Nat}, 0 < n → ∀ ds : List Char, Nat.toDigits 10 n ≠ '0' :: ds
  | n, hn, ds => by
    by_cases hsmall : n < 10
    · rw [Nat.toDigits_of_lt_base hsmall]
      have hchar : ∀ d < 10, 0 < d → Nat.digitChar d ≠ '0' := by decide
      intro h
      exact hchar n hsmall hn (List.cons.inj h).1
    · have hfront := toDigits_ne_zero_cons (n := n / 10) (by omega)
      rw [Nat.toDigits_of_base_le (by decide) (by omega)]
      intro h
      cases hds : Nat.toDigits 10 (n / 10) with
      | nil => exact Nat.toDigits_ne_nil hds
      | cons d es =>
        rw [hds, List.cons_append] at h
        exact hfront es (by rw [hds, (List.cons.inj h).1])

/-- A whole number of at most 64 bits is read as it is written. -/
theorem parse_int {n : Int} (hn : -0x8000000000000000 ≤ n ∧ n < 0x10000000000000000) :
    parse ((toString n).toList ++ rest) = some (.int n hn, rest) := by
  have hvalue : Text.ofDigits (Nat.toDigits 10 n.natAbs) = n.natAbs := ofDigits_toDigits _
  have hall : ∀ d ∈ Nat.toDigits 10 n.natAbs, d.isDigit = true := fun _ => isDigit_of_mem_toDigits
  -- the digits fit, so that nothing is scaled
  have hwhole : afterWhole (n < 0) (Nat.toDigits 10 n.natAbs) rest = some (.int n hn, rest) := by
    have hsig : significand 0 (Nat.toDigits 10 n.natAbs) = (n.natAbs, []) := by
      have hlt : Text.ofDigits (Nat.toDigits 10 n.natAbs) < 0x10000000000000000 := by omega
      exact (significand_eq hlt).trans (congrArg (·, []) hvalue)
    have hexp : exponentPart rest = some (0, rest) := by
      simpa [exponentPart] using exponentPart_append h []
    have hsmall : (decide (n < 0) && (n.natAbs == 0 || decide (0x8000000000000000 < n.natAbs))) = false := by
      simp only [Bool.and_eq_false_iff, Bool.or_eq_false_iff, decide_eq_false_iff_not, beq_eq_false_iff_ne]
      omega
    have hsigned : (if decide (n < 0) then -(n.natAbs : Int) else n.natAbs) = n := by
      simp only [decide_eq_true_eq]
      omega
    unfold afterWhole
    rw [hsig]
    dsimp only
    split
    · exact absurd rfl (h.head_ne (by decide) _)
    · have hplain : (([] : List Char).isEmpty && rest.length == rest.length &&
          !(decide (n < 0) && (n.natAbs == 0 || decide (0x8000000000000000 < n.natAbs)))) = true := by
        rw [hsmall, beq_self_eq_true]
        rfl
      simp only [hexp, Option.bind_eq_bind, Option.bind_some, hplain, if_true, hsigned, ofInt?, dif_pos hn]
  have hsign : (if n < 0 then ['-'] else []) = if decide (n < 0) then ['-'] else [] := by simp
  rw [toList_toString_int, hsign, List.append_assoc]
  cases hds : Nat.toDigits 10 n.natAbs with
  | nil => exact absurd hds Nat.toDigits_ne_nil
  | cons d ds =>
    rw [hds] at hall hwhole
    rw [List.cons_append, parse_signed _ (hall d List.mem_cons_self)]
    split
    · rename_i h0
      subst h0
      have hzero : n.natAbs = 0 := by
        by_contra hne
        exact toDigits_ne_zero_cons (Nat.pos_of_ne_zero hne) ds hds
      obtain rfl : ds = [] := by
        rw [hzero] at hds
        exact (List.cons.inj hds).2.symm
      have hhead : ¬((rest.head?.map Char.isDigit).getD false = true) := by
        cases rest with
        | nil => simp
        | cons c rest => simpa using h.digits c rfl
      rw [List.nil_append, if_neg hhead, hwhole]
    · have hmore : ∀ c ∈ ds, c.isDigit = true := fun c hc => hall c (List.mem_cons_of_mem _ hc)
      rw [takeWhile_append_stop hmore h.digits, dropWhile_append_stop hmore h.digits, hwhole]

end Number

end

/-- The float is read back from its text. -/
def Number.Legible (x : Float) : Prop :=
  ∃ hx : x.isFinite = true, parse (Number.float x hx).text.toList = some (.float x hx, [])

instance (x : Float) : Decidable (Number.Legible x) :=
  inferInstanceAs (Decidable (∃ hx : x.isFinite = true,
    Number.parse (Number.float x hx).text.toList = some (.float x hx, [])))

end FieldBridge

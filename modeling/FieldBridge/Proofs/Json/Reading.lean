import FieldBridge.Proofs.Json.Number

/-!
# Values are read back from their texts

The printer's layout is taken as a parameter: some white space before each item and
before a closing bracket, and some before the value of a member. Whatever that white
space is, a value is read back from its text, if it is nested no deeper than the
reader goes and its floats are legible. The induction is on the value; fuel is no
matter, as twice the length of the text is enough of it.
-/

namespace FieldBridge
open Decimal

namespace Json

/-! ## Trees the reader can take -/

mutual
/-- How many containers are inside one another. -/
def depth : Json → Nat
  | array items => depthItems items + 1
  | object members => depthMembers members + 1
  | null => 0
  | bool _ => 0
  | number _ => 0
  | string _ => 0
def depthItems : List Json → Nat
  | [] => 0
  | v :: rest => max (depth v) (depthItems rest)
def depthMembers : List (String × Json) → Nat
  | [] => 0
  | (_, v) :: rest => max (depth v) (depthMembers rest)
end

mutual
/-- The floats of a tree. -/
def floats : Json → List Float
  | array items => floatsItems items
  | object members => floatsMembers members
  | number (.float x _) => [x]
  | number (.int _ _) => []
  | null => []
  | bool _ => []
  | string _ => []
def floatsItems : List Json → List Float
  | [] => []
  | v :: rest => floats v ++ floatsItems rest
def floatsMembers : List (String × Json) → List Float
  | [] => []
  | (_, v) :: rest => floats v ++ floatsMembers rest
end

/-- A tree with at most `d` containers inside one another whose floats are legible. -/
def Readable (d : Nat) (v : Json) : Prop := v.depth ≤ d ∧ ∀ x ∈ v.floats, Number.Legible x

theorem depthItems_le {items : List Json} {d : Nat} : depthItems items ≤ d ↔ ∀ v ∈ items, v.depth ≤ d := by
  induction items with
  | nil => simp [depthItems]
  | cons v items ih => simp [depthItems, ih]

theorem depthMembers_le {members : List (String × Json)} {d : Nat} :
    depthMembers members ≤ d ↔ ∀ p ∈ members, p.2.depth ≤ d := by
  induction members with
  | nil => simp [depthMembers]
  | cons p members ih => simp [depthMembers, ih]

theorem mem_floatsItems {items : List Json} {x : Float} : x ∈ floatsItems items ↔ ∃ v ∈ items, x ∈ v.floats := by
  induction items with
  | nil => simp [floatsItems]
  | cons v items ih => simp [floatsItems, ih]

theorem mem_floatsMembers {members : List (String × Json)} {x : Float} :
    x ∈ floatsMembers members ↔ ∃ p ∈ members, x ∈ p.2.floats := by
  induction members with
  | nil => simp [floatsMembers]
  | cons p members ih => simp only [floatsMembers, List.mem_append, ih, List.exists_mem_cons_iff]

theorem readable_array {items : List Json} {d : Nat} :
    Readable (d + 1) (array items) ↔ ∀ v ∈ items, Readable d v := by
  simp only [Readable, depth, Nat.add_le_add_iff_right, depthItems_le, floats, mem_floatsItems]
  grind

theorem readable_object {members : List (String × Json)} {d : Nat} :
    Readable (d + 1) (object members) ↔ ∀ p ∈ members, Readable d p.2 := by
  simp only [Readable, depth, Nat.add_le_add_iff_right, depthMembers_le, floats, mem_floatsMembers]
  constructor
  · intro h p hp
    exact ⟨h.1 p hp, fun x hx => h.2 x ⟨p, hp, hx⟩⟩
  · intro h
    refine ⟨fun p hp => (h p hp).1, ?_⟩
    rintro x ⟨p, hp, hx⟩
    exact (h p hp).2 x hx

/-! ## White space -/

/-- Text that is passed over between the parts of a value. -/
def Space (cs : List Char) : Prop := ∀ c ∈ cs, isSpace c = true

theorem skipSpace_append {ws : List Char} (hw : Space ws) (cs : List Char) : skipSpace (ws ++ cs) = skipSpace cs :=
  List.dropWhile_append_of_pos hw

theorem parseValue_append {ws : List Char} (hw : Space ws) (fuel d : Nat) (cs : List Char) :
    parseValue fuel d (ws ++ cs) = parseValue fuel d cs := by
  cases fuel with
  | zero => simp only [parseValue]
  | succ fuel => simp only [parseValue, skipSpace_append hw]

/-! ## Values with white space between their parts -/

section
variable (gap : Nat → List Char) (blank : List Char)

mutual
/-- The text of a value inside `depth` containers, with a gap before each item and before a closing
bracket, and a blank before the value of a member. -/
def spaced (depth : Nat) : Json → List Char
  | array [] => ['[', ']']
  | array (v :: rest) => '[' :: gap (depth + 1) ++ spaced (depth + 1) v ++ spacedItems depth rest
  | object [] => ['\x7b', '\x7d']
  | object ((k, v) :: rest) =>
    '\x7b' :: gap (depth + 1) ++ quoted k ++ ':' :: (blank ++ spaced (depth + 1) v) ++ spacedMembers depth rest
  | null => chars null
  | bool b => chars (bool b)
  | number n => chars (number n)
  | string s => chars (string s)
def spacedItems (depth : Nat) : List Json → List Char
  | [] => gap depth ++ [']']
  | v :: rest => ',' :: gap (depth + 1) ++ spaced (depth + 1) v ++ spacedItems depth rest
def spacedMembers (depth : Nat) : List (String × Json) → List Char
  | [] => gap depth ++ ['\x7d']
  | (k, v) :: rest =>
    ',' :: gap (depth + 1) ++ quoted k ++ ':' :: (blank ++ spaced (depth + 1) v) ++ spacedMembers depth rest
end

end

mutual
theorem indented_eq : ∀ (depth : Nat) (v : Json), indented depth v = spaced newline [' '] depth v
  | depth, array [] => rfl
  | depth, array (v :: rest) => by
    rw [indented, spaced, indented_eq (depth + 1) v, indentedItems_eq depth rest]
  | depth, object [] => rfl
  | depth, object ((k, v) :: rest) => by
    rw [indented, spaced, indented_eq (depth + 1) v, indentedMembers_eq depth rest]
    rfl
  | _, null => rfl
  | _, bool _ => rfl
  | _, number _ => rfl
  | _, string _ => rfl
theorem indentedItems_eq : ∀ (depth : Nat) (items : List Json),
    indentedItems depth items = spacedItems newline [' '] depth items
  | depth, [] => rfl
  | depth, v :: rest => by
    rw [indentedItems, spacedItems, indented_eq (depth + 1) v, indentedItems_eq depth rest]
theorem indentedMembers_eq : ∀ (depth : Nat) (members : List (String × Json)),
    indentedMembers depth members = spacedMembers newline [' '] depth members
  | depth, [] => rfl
  | depth, (k, v) :: rest => by
    rw [indentedMembers, spacedMembers, indented_eq (depth + 1) v, indentedMembers_eq depth rest]
    rfl
end

/-- The compact form has no white space at all. -/
abbrev noGap : Nat → List Char := fun _ => []

mutual
theorem chars_eq : ∀ (depth : Nat) (v : Json), chars v = spaced noGap [] depth v
  | depth, array [] => rfl
  | depth, array (v :: rest) => by
    rw [chars, charsItems, spaced, chars_eq (depth + 1) v, charsMoreItems_eq depth rest]
    rfl
  | depth, object [] => rfl
  | depth, object ((k, v) :: rest) => by
    rw [chars, charsMembers, spaced, chars_eq (depth + 1) v, charsMoreMembers_eq depth rest]
    rfl
  | _, null => rfl
  | _, bool _ => rfl
  | _, number _ => rfl
  | _, string _ => rfl
theorem charsMoreItems_eq : ∀ (depth : Nat) (items : List Json),
    charsMoreItems items = spacedItems noGap [] depth items
  | depth, [] => rfl
  | depth, v :: rest => by
    rw [charsMoreItems, spacedItems, chars_eq (depth + 1) v, charsMoreItems_eq depth rest]
    rfl
theorem charsMoreMembers_eq : ∀ (depth : Nat) (members : List (String × Json)),
    charsMoreMembers members = spacedMembers noGap [] depth members
  | depth, [] => rfl
  | depth, (k, v) :: rest => by
    rw [charsMoreMembers, spacedMembers, chars_eq (depth + 1) v, charsMoreMembers_eq depth rest]
    rfl
end

/-! ## Reading -/

theorem skipSpace_cons {c : Char} (hc : isSpace c = false) (cs : List Char) : skipSpace (c :: cs) = c :: cs :=
  List.dropWhile_cons_of_neg (by simp [hc])

theorem not_isSpace_of_numeral {c : Char} (hc : isNumeral c = true) : isSpace c = false := by
  cases h : isSpace c with
  | false => rfl
  | true =>
    simp only [isSpace, Bool.or_eq_true, beq_iff_eq] at h
    rcases h with ((rfl | rfl) | rfl) | rfl <;> cases hc

theorem not_numeral_of_isSpace {c : Char} (h : isSpace c = true) : (isNumeral c || c == 'E') = false := by
  simp only [isSpace, Bool.or_eq_true, beq_iff_eq] at h
  rcases h with ((rfl | rfl) | rfl) | rfl <;> rfl

section
variable {fuel d : Nat} {cs rest : List Char}

theorem parseItems_append {ws : List Char} (hw : Space ws) (cs : List Char) :
    parseItems fuel d (ws ++ cs) = parseItems fuel d cs := by
  cases fuel with
  | zero => simp only [parseItems]
  | succ fuel => simp only [parseItems, parseValue_append hw]

theorem parseMembers_append {ws : List Char} (hw : Space ws) (cs : List Char) :
    parseMembers fuel d (ws ++ cs) = parseMembers fuel d cs := by
  cases fuel with
  | zero => simp only [parseMembers]
  | succ fuel => simp only [parseMembers, skipSpace_append hw]

theorem parseValue_number {n : Number} (hn : Readable d (number n)) (ha : Apart rest) :
    parseValue (fuel + 1) d (chars (number n) ++ rest) = some (number n, rest) := by
  have hread : Number.parse (n.text.toList ++ rest) = some (n, rest) := by
    cases n with
    | int n hrange => exact Number.parse_int ha hrange
    | float x hx =>
      obtain ⟨_, hlegible⟩ := hn.2 x (by simp [floats])
      simpa using Number.parse_append ha hlegible
  have hspace : skipSpace (chars (number n) ++ rest) = chars (number n) ++ rest := by
    cases htext : n.text.toList with
    | nil => exact absurd htext n.text_ne_nil
    | cons c cs =>
      have hc : isNumeral c = true := Number.isNumeral_of_mem_text (htext ▸ List.mem_cons_self)
      rw [chars, htext, List.cons_append, skipSpace_cons (not_isSpace_of_numeral hc)]
  rw [parseValue, hspace]
  split
  · exact absurd ‹_› (number_chars_ne n rest (by decide) _)
  · exact absurd ‹_› (number_chars_ne n rest (by decide) _)
  · exact absurd ‹_› (number_chars_ne n rest (by decide) _)
  · exact absurd ‹_› (number_chars_ne n rest (by decide) _)
  · exact absurd ‹_› (number_chars_ne n rest (by decide) _)
  · exact absurd ‹_› (number_chars_ne n rest (by decide) _)
  · rw [chars, hread]
    rfl

theorem parseValue_string (s : String) :
    parseValue (fuel + 1) d (chars (string s) ++ rest) = some (string s, rest) := by
  have hquote : chars (string s) ++ rest = '"' :: (s.toList.flatMap escapeChar ++ '"' :: rest) := by
    simp [chars, quoted]
  rw [hquote, parseValue, skipSpace_cons (by decide)]
  simp [stringBody_flatMap]

end

section
variable {gap : Nat → List Char} {blank : List Char} {depth fuel d : Nat} {rest : List Char}

/-- A value is read from its text, whatever follows it. -/
def Reads (gap : Nat → List Char) (blank : List Char) (v : Json) : Prop :=
  ∀ (depth fuel d : Nat) (rest : List Char), Readable d v → 2 * (spaced gap blank depth v).length ≤ fuel →
    Apart rest → parseValue fuel d (spaced gap blank depth v ++ rest) = some (v, rest)

/-- A value begins with a character that is no white space and closes nothing. -/
theorem exists_cons_spaced (gap : Nat → List Char) (blank : List Char) (depth : Nat) (v : Json) :
    ∃ c cs, spaced gap blank depth v = c :: cs ∧ isSpace c = false ∧ c ≠ ']' := by
  cases v with
  | null => exact ⟨_, _, rfl, rfl, by decide⟩
  | bool b => cases b <;> exact ⟨_, _, rfl, rfl, by decide⟩
  | string s => exact ⟨_, _, rfl, rfl, by decide⟩
  | array items => cases items <;> exact ⟨_, _, rfl, rfl, by decide⟩
  | object members => cases members <;> exact ⟨_, _, rfl, rfl, by decide⟩
  | number n =>
    cases htext : n.text.toList with
    | nil => exact absurd htext n.text_ne_nil
    | cons c cs =>
      have hc : isNumeral c = true := Number.isNumeral_of_mem_text (htext ▸ List.mem_cons_self)
      refine ⟨c, cs, htext, not_isSpace_of_numeral hc, ?_⟩
      rintro rfl
      cases hc

theorem apart_space {ws : List Char} (hw : Space ws) {c : Char} (hc : (isNumeral c || c == 'E') = false)
    (cs : List Char) : Apart (ws ++ c :: cs) := by
  cases ws with
  | nil => exact apart_cons hc cs
  | cons w ws => exact apart_cons (not_numeral_of_isSpace (hw w List.mem_cons_self)) _

theorem apart_spacedItems (hg : ∀ n, Space (gap n)) (items : List Json) :
    Apart (spacedItems gap blank depth items ++ rest) := by
  cases items with
  | nil =>
    rw [spacedItems, List.append_assoc]
    exact apart_space (hg _) (by decide) _
  | cons v items => exact apart_cons (by decide) _

theorem apart_spacedMembers (hg : ∀ n, Space (gap n)) (members : List (String × Json)) :
    Apart (spacedMembers gap blank depth members ++ rest) := by
  cases members with
  | nil =>
    rw [spacedMembers, List.append_assoc]
    exact apart_space (hg _) (by decide) _
  | cons p members => exact apart_cons (by decide) _

theorem parseItems_spaced (hg : ∀ n, Space (gap n)) {v : Json} {items : List Json}
    (hreads : ∀ w ∈ v :: items, Reads gap blank w) (hr : ∀ w ∈ v :: items, Readable d w)
    (hfuel : 2 * ((spaced gap blank (depth + 1) v).length + (spacedItems gap blank depth items).length) ≤ fuel) :
    parseItems fuel d (spaced gap blank (depth + 1) v ++ (spacedItems gap blank depth items ++ rest)) =
      some (v :: items, rest) := by
  induction items generalizing v fuel with
  | nil =>
    rw [spacedItems, List.length_append, List.length_singleton] at hfuel
    obtain ⟨fuel, rfl⟩ : ∃ n, fuel = n + 1 := ⟨fuel - 1, by omega⟩
    have hv := hreads v List.mem_cons_self (depth + 1) fuel d (spacedItems gap blank depth [] ++ rest)
      (hr v List.mem_cons_self) (by omega)
      (apart_spacedItems hg [])
    have hclose : skipSpace (spacedItems gap blank depth [] ++ rest) = ']' :: rest := by
      rw [spacedItems, List.append_assoc, skipSpace_append (hg depth)]
      exact skipSpace_cons rfl rest
    rw [parseItems, hv]
    simp only [hclose]
  | cons w items ih =>
    rw [spacedItems, List.length_append, List.length_append, List.length_cons] at hfuel
    obtain ⟨fuel, rfl⟩ : ∃ n, fuel = n + 1 := ⟨fuel - 1, by omega⟩
    have hv := hreads v List.mem_cons_self (depth + 1) fuel d (spacedItems gap blank depth (w :: items) ++ rest)
      (hr v List.mem_cons_self) (by omega)
      (apart_spacedItems hg _)
    have hmore : parseItems fuel d (spaced gap blank (depth + 1) w ++ (spacedItems gap blank depth items ++ rest)) =
        some (w :: items, rest) :=
      ih (fun u hu => hreads u (List.mem_cons_of_mem _ hu)) (fun u hu => hr u (List.mem_cons_of_mem _ hu)) (by omega)
    have hcomma : skipSpace (spacedItems gap blank depth (w :: items) ++ rest) =
        ',' :: (gap (depth + 1) ++
          (spaced gap blank (depth + 1) w ++ (spacedItems gap blank depth items ++ rest))) := by
      simp only [spacedItems, List.append_assoc, List.cons_append]
      exact skipSpace_cons rfl _
    rw [parseItems, hv]
    simp only [hcomma, parseItems_append (hg _), hmore]
    rfl

theorem parseMembers_spaced (hg : ∀ n, Space (gap n)) (hb : Space blank) {k : String} {v : Json}
    {members : List (String × Json)} (hreads : ∀ p ∈ (k, v) :: members, Reads gap blank p.2)
    (hr : ∀ p ∈ (k, v) :: members, Readable d p.2)
    (hfuel : 2 * ((spaced gap blank (depth + 1) v).length + (spacedMembers gap blank depth members).length) ≤ fuel) :
    parseMembers fuel d (quoted k ++ ':' :: (blank ++ (spaced gap blank (depth + 1) v ++
      (spacedMembers gap blank depth members ++ rest)))) = some ((k, v) :: members, rest) := by
  have hkey : ∀ (k : String) (cs : List Char),
      quoted k ++ cs = '"' :: (k.toList.flatMap escapeChar ++ '"' :: cs) := by simp [quoted]
  induction members generalizing k v fuel with
  | nil =>
    rw [spacedMembers, List.length_append, List.length_singleton] at hfuel
    obtain ⟨fuel, rfl⟩ : ∃ n, fuel = n + 1 := ⟨fuel - 1, by omega⟩
    have hv := hreads (k, v) List.mem_cons_self (depth + 1) fuel d (spacedMembers gap blank depth [] ++ rest)
      (hr (k, v) List.mem_cons_self) (by dsimp only; omega)
      (apart_spacedMembers hg [])
    have hclose : skipSpace (spacedMembers gap blank depth [] ++ rest) = '\x7d' :: rest := by
      rw [spacedMembers, List.append_assoc, skipSpace_append (hg depth)]
      exact skipSpace_cons rfl rest
    rw [parseMembers, hkey, skipSpace_cons rfl]
    simp only [stringBody_flatMap, skipSpace_cons (show isSpace ':' = false from rfl), parseValue_append hb, hv, hclose,
      String.ofList_toList]
  | cons w members ih =>
    obtain ⟨l, w⟩ := w
    rw [spacedMembers] at hfuel
    simp only [List.length_append, List.length_cons] at hfuel
    obtain ⟨fuel, rfl⟩ : ∃ n, fuel = n + 1 := ⟨fuel - 1, by omega⟩
    have hv := hreads (k, v) List.mem_cons_self (depth + 1) fuel d
      (spacedMembers gap blank depth ((l, w) :: members) ++ rest)
      (hr (k, v) List.mem_cons_self) (by dsimp only; omega)
      (apart_spacedMembers hg _)
    have hmore : parseMembers fuel d (quoted l ++ ':' :: (blank ++ (spaced gap blank (depth + 1) w ++
        (spacedMembers gap blank depth members ++ rest)))) = some ((l, w) :: members, rest) :=
      ih (fun p hp => hreads p (List.mem_cons_of_mem _ hp)) (fun p hp => hr p (List.mem_cons_of_mem _ hp)) (by omega)
    have hcomma : skipSpace (spacedMembers gap blank depth ((l, w) :: members) ++ rest) =
        ',' :: (gap (depth + 1) ++ (quoted l ++ ':' :: (blank ++ (spaced gap blank (depth + 1) w ++
          (spacedMembers gap blank depth members ++ rest))))) := by
      simp only [spacedMembers, List.append_assoc, List.cons_append]
      exact skipSpace_cons rfl _
    rw [parseMembers, hkey, skipSpace_cons rfl]
    simp only [stringBody_flatMap, skipSpace_cons (show isSpace ':' = false from rfl), parseValue_append hb, hv, hcomma,
      parseMembers_append (hg _), hmore, String.ofList_toList, Option.map_some]

theorem spaced_length_pos (gap : Nat → List Char) (blank : List Char) (depth : Nat) (v : Json) :
    0 < (spaced gap blank depth v).length := by
  obtain ⟨c, cs, h, -⟩ := exists_cons_spaced gap blank depth v
  rw [h]
  exact Nat.succ_pos _

theorem Reads.of_succ {v : Json} (h : ∀ (depth fuel d : Nat) (rest : List Char), Readable d v →
    2 * (spaced gap blank depth v).length ≤ fuel + 1 → Apart rest →
      parseValue (fuel + 1) d (spaced gap blank depth v ++ rest) = some (v, rest)) : Reads gap blank v := by
  intro depth fuel d rest hr hfuel ha
  have hpos := spaced_length_pos gap blank depth v
  obtain ⟨fuel, rfl⟩ : ∃ n, fuel = n + 1 := ⟨fuel - 1, by omega⟩
  exact h depth fuel d rest hr hfuel ha

theorem not_readable_zero_array {items : List Json} : ¬Readable 0 (array items) := fun h => by
  simpa [depth] using h.1

theorem not_readable_zero_object {members : List (String × Json)} : ¬Readable 0 (object members) := fun h => by
  simpa [depth] using h.1

theorem reads_array (hg : ∀ n, Space (gap n)) {items : List Json} (ih : ∀ v ∈ items, Reads gap blank v) :
    Reads gap blank (array items) := by
  refine .of_succ fun depth fuel d rest hr hfuel ha => ?_
  cases d with
  | zero => exact absurd hr not_readable_zero_array
  | succ d =>
    cases items with
    | nil => rfl
    | cons v items =>
      obtain ⟨c, cs, hcs, hspace, hclose⟩ := exists_cons_spaced gap blank (depth + 1) v
      have hskip : ∀ rest, skipSpace (gap (depth + 1) ++ (spaced gap blank (depth + 1) v ++ rest)) =
          c :: (cs ++ rest) := by
        intro rest
        rw [skipSpace_append (hg _), hcs, List.cons_append, skipSpace_cons hspace]
      rw [spaced] at hfuel
      simp only [List.length_append, List.length_cons] at hfuel
      have hitems : parseItems fuel d (spaced gap blank (depth + 1) v ++
          (spacedItems gap blank depth items ++ rest)) = some (v :: items, rest) :=
        parseItems_spaced hg ih (readable_array.mp hr) (by omega)
      simp only [spaced, List.cons_append, List.append_assoc]
      rw [parseValue, skipSpace_cons rfl]
      simp only [hskip, Nat.add_one_ne_zero, if_false, Nat.add_sub_cancel, parseItems_append (hg _), hitems]
      split
      · rename_i heq
        exact absurd (List.cons.inj heq).1 hclose
      · rfl

theorem reads_object (hg : ∀ n, Space (gap n)) (hb : Space blank) {members : List (String × Json)}
    (ih : ∀ p ∈ members, Reads gap blank p.2) : Reads gap blank (object members) := by
  refine .of_succ fun depth fuel d rest hr hfuel ha => ?_
  cases d with
  | zero => exact absurd hr not_readable_zero_object
  | succ d =>
    cases members with
    | nil => rfl
    | cons p members =>
      obtain ⟨k, v⟩ := p
      have hskip : ∀ rest, skipSpace (gap (depth + 1) ++ (quoted k ++ rest)) = quoted k ++ rest := by
        intro rest
        rw [skipSpace_append (hg _)]
        exact skipSpace_cons rfl _
      rw [spaced] at hfuel
      simp only [List.length_append, List.length_cons] at hfuel
      have hmembers : parseMembers fuel d (quoted k ++ ':' :: (blank ++ (spaced gap blank (depth + 1) v ++
          (spacedMembers gap blank depth members ++ rest)))) = some ((k, v) :: members, rest) :=
        parseMembers_spaced hg hb ih (readable_object.mp hr) (by omega)
      simp only [spaced, List.cons_append, List.append_assoc]
      rw [parseValue, skipSpace_cons rfl]
      simp only [hskip, Nat.add_one_ne_zero, if_false, Nat.add_sub_cancel, parseMembers_append (hg _), hmembers]
      split
      · rename_i heq
        simp [quoted] at heq
      · rfl

theorem reads (hg : ∀ n, Space (gap n)) (hb : Space blank) (v : Json) : Reads gap blank v := by
  induction v using induct with
  | null => exact .of_succ fun _ _ _ _ _ _ _ => rfl
  | bool b => cases b <;> exact .of_succ fun _ _ _ _ _ _ _ => rfl
  | number n => exact .of_succ fun _ _ _ _ hr _ ha => parseValue_number hr ha
  | string s => exact .of_succ fun _ _ _ _ _ _ _ => parseValue_string s
  | array items ih => exact reads_array hg ih
  | object members ih => exact reads_object hg hb ih

end

theorem parse?_spaced {gap : Nat → List Char} {blank : List Char} (hg : ∀ n, Space (gap n)) (hb : Space blank)
    {v : Json} (h : Readable maxDepth v) : parse? (String.ofList (spaced gap blank 0 v)) = some v := by
  have hread := reads hg hb v 0 (2 * (spaced gap blank 0 v).length + 2) maxDepth [] h (Nat.le_add_right _ _) apart_nil
  rw [List.append_nil] at hread
  rw [parse?, String.toList_ofList]
  simp only [hread]
  rfl

theorem space_newline (depth : Nat) : Space (newline depth) := by
  intro c hc
  rcases List.mem_cons.mp hc with rfl | hc
  · rfl
  · rw [(List.mem_replicate.mp hc).2]
    rfl

/-- **The indented form is read back.** -/
theorem parse?_pretty {v : Json} (h : Readable maxDepth v) : parse? v.pretty = some v := by
  rw [pretty, indented_eq]
  exact parse?_spaced space_newline (by simp [Space, isSpace]) h

/-- **The compact form is read back.** -/
theorem parse?_compact {v : Json} (h : Readable maxDepth v) : parse? v.compact = some v := by
  rw [compact, chars_eq 0]
  exact parse?_spaced (fun _ => by simp [Space]) (by simp [Space]) h

end Json

end FieldBridge

import FieldBridge.Proofs.CommandLine.Argument
import FieldBridge.Proofs.Conversion.Transparency
import FieldBridge.Proofs.Text.Blank
import FieldBridge.Proofs.Text.Split

/-!
# The two ways to write options

Options can be written as a JSON object or as pairs between commas. A pair may have blanks
around its name and around its value, and a piece between commas may be blank. Both ways
give the same options, as long as no value has a comma in its text.
-/

namespace FieldBridge

/-! ## Keyed lists in any order -/

namespace Keyed

variable {α : Type} {found m : Keyed α}

theorem sorted_foldl_insert (hm : Sorted m) (found : List (String × α)) :
    Sorted (found.foldl (fun m p => m.insert p.1 p.2) m) := by
  induction found generalizing m with
  | nil => exact hm
  | cons p found ih => exact ih (sorted_insert p.1 p.2 hm)

theorem find?_foldl_insert (h : (found.map (·.1)).Nodup) (key : String) :
    find? key (found.foldl (fun m p => m.insert p.1 p.2) m) = (find? key found).or (find? key m) := by
  induction found generalizing m with
  | nil => rfl
  | cons p found ih =>
    rw [List.map_cons, List.nodup_cons] at h
    rw [List.foldl_cons, ih h.2, find?_insert, find?]
    by_cases hp : p.1 = key
    · have hnone : find? key found = none := by
        rw [← Option.not_isSome_iff_eq_none, find?_isSome, ← hp]
        exact h.1
      simp [hp, hnone]
    · simp [hp]

theorem find?_perm (hn : (m.map (·.1)).Nodup) (h : found.Perm m) (key : String) : find? key found = find? key m := by
  cases hm : find? key m with
  | some v => exact find?_of_mem ((h.map _).nodup_iff.mpr hn) (h.mem_iff.mpr (mem_of_find? hm))
  | none =>
    rw [← Option.not_isSome_iff_eq_none, find?_isSome] at hm ⊢
    rwa [(h.map _).mem_iff]

/-- Values under different keys can be put in any order. -/
theorem ofList_perm (hm : Sorted m) (h : found.Perm m) : ofList found = m := by
  have hn := hm.nodup
  apply ext
  · exact sorted_foldl_insert List.Pairwise.nil found
  · exact hm
  · intro key
    rw [ofList, find?_foldl_insert ((h.map _).nodup_iff.mpr hn), find?_perm hn h]
    simp [find?]

end Keyed

/-! ## Texts of values -/

namespace Json

open Text Decimal

theorem not_isBlank_of_isNumeral {c : Char} (h : isNumeral c = true) : isBlank c = false := by
  simp only [isNumeral, Bool.or_eq_true, beq_iff_eq] at h
  rcases h with (((h | rfl) | rfl) | rfl) | rfl
  · exact Reading.not_isBlank_of_isDigit h
  all_goals decide

theorem getLast?_charsMoreItems (items : List Json) : (charsMoreItems items).getLast? = some ']' := by
  induction items with
  | nil => rfl
  | cons v items ih => simp [charsMoreItems, List.getLast?_cons, List.getLast?_append, ih]

theorem getLast?_charsMoreMembers (members : List (String × Json)) :
    (charsMoreMembers members).getLast? = some '\x7d' := by
  induction members with
  | nil => rfl
  | cons p members ih => simp [charsMoreMembers, List.getLast?_cons, List.getLast?_append, ih]

theorem unpadded_of_ends {cs : List Char} {c d : Char} (hfirst : cs.head? = some c) (hc : isBlank c = false)
    (hlast : cs.getLast? = some d) (hd : isBlank d = false) : Unpadded cs where
  first := by simpa [hfirst] using hc
  last := by simpa [hlast] using hd

/-- The compact form neither begins nor ends with a blank. -/
theorem unpadded_chars (v : Json) : Unpadded (chars v) := by
  cases v with
  | null => exact unpadded_of_ends rfl (by decide) rfl (by decide)
  | bool b => cases b <;> exact unpadded_of_ends rfl (by decide) rfl (by decide)
  | number n =>
    have hnumeral : ∀ c ∈ n.text.toList, isBlank c = false := by
      intro c hc
      exact not_isBlank_of_isNumeral (Number.isNumeral_of_mem_text hc)
    constructor
    · intro c hc
      exact hnumeral c (List.mem_of_mem_head? hc)
    · intro c hc
      exact hnumeral c (List.mem_of_mem_getLast? hc)
  | string s =>
    have hlast : (chars (string s)).getLast? = some '"' := List.getLast?_concat
    exact unpadded_of_ends rfl (by decide) hlast (by decide)
  | array items =>
    have hlast : (chars (array items)).getLast? = some ']' := by
      cases items with
      | nil => rfl
      | cons v items => simp [chars, charsItems, List.getLast?_cons, List.getLast?_append, getLast?_charsMoreItems]
    exact unpadded_of_ends rfl (by decide) hlast (by decide)
  | object members =>
    have hlast : (chars (object members)).getLast? = some '\x7d' := by
      cases members with
      | nil => rfl
      | cons p members =>
        simp [chars, charsMembers, List.getLast?_cons, List.getLast?_append, getLast?_charsMoreMembers]
    exact unpadded_of_ends rfl (by decide) hlast (by decide)

theorem chars_ne_nil (v : Json) : chars v ≠ [] := by
  cases v with
  | bool b => cases b <;> simp [chars]
  | number n => exact n.text_ne_nil
  | _ => simp [chars, quoted]

end Json

namespace Argument

open Text Decimal

/-! ## Writing pairs -/

def IsName (name : String) : Prop :=
  ∃ c cs, name.toList = c :: cs ∧ isNameStart c = true ∧ ∀ d ∈ cs, isNameChar d = true

/-- An option that can be written as a pair. -/
structure Writable (p : String × Json) : Prop where
  name : IsName p.1
  depth : p.2.depth ≤ 126
  comma : ',' ∉ p.2.canonical.toList
  floats : ∀ x ∈ p.2.floats, Number.Legible x

/-- Blanks within a line. -/
structure Gap where
  chars : List Char
  blank : ∀ c ∈ chars, isBlank c = true
  line : '\n' ∉ chars

def Gap.none : Gap := ⟨[], by simp, by simp⟩

/-- A name and a value, with the blanks around each. -/
structure Spaced where
  before : Gap
  name : String
  afterName : Gap
  beforeValue : Gap
  value : Json
  after : Gap

def Spaced.chars (s : Spaced) : List Char :=
  s.before.chars ++ (s.name.toList ++ (s.afterName.chars ++
    '=' :: (s.beforeValue.chars ++ (s.value.canonical.toList ++ s.after.chars))))

/-- What stands between two commas. -/
inductive Piece where
  | blank (gap : Gap)
  | pair (s : Spaced)

def Piece.chars : Piece → List Char
  | blank gap => gap.chars
  | pair s => s.chars

def Piece.found? : Piece → Option (String × Json)
  | blank _ => none
  | pair s => some (s.name, s.value)

def written (ps : List Piece) : List Char := [','].intercalate (ps.map Piece.chars)

def found (ps : List Piece) : List (String × Json) := ps.filterMap Piece.found?

/-- The option in the piece, if there is one, can be written as a pair. -/
def Piece.Sound (p : Piece) : Prop := ∀ q ∈ p.found?, Writable q ∧ q.2.IsNormal

/-! ## Reading one piece -/

theorem Gap.comma (g : Gap) : ',' ∉ g.chars := by
  intro h
  exact absurd (g.blank _ h) (by decide)

theorem toNat_of_isNameChar {c : Char} (h : isNameChar c = true) : 48 ≤ c.toNat ∧ c.toNat ≤ 122 := by
  have hbetween {a b : Char} (ha : 48 ≤ a.toNat) (hb : b.toNat ≤ 122)
      (hc : (decide (a.val ≤ c.val) && decide (c.val ≤ b.val)) = true) : 48 ≤ c.toNat ∧ c.toNat ≤ 122 := by
    simp only [Bool.and_eq_true, decide_eq_true_eq, UInt32.le_iff_toNat_le] at hc
    exact ⟨le_trans ha hc.1, le_trans hc.2 hb⟩
  have hcases : (c.isUpper || c.isLower || c.isDigit || c == '_') = true := h
  simp only [Bool.or_eq_true, beq_iff_eq] at hcases
  rcases hcases with ((hc | hc) | hc) | rfl
  · have hupper : 'A'.val ≤ c.val ∧ c.val ≤ 'Z'.val := of_decide_eq_true hc
    apply hbetween (a := 'A') (b := 'Z') (by decide) (by decide)
    simpa only [Bool.and_eq_true, decide_eq_true_eq] using hupper
  · exact hbetween (a := 'a') (b := 'z') (by decide) (by decide) hc
  · exact hbetween (a := '0') (b := '9') (by decide) (by decide) hc
  · decide

theorem not_isBlank_of_isNameChar {c : Char} (h : isNameChar c = true) : isBlank c = false := by
  have hrange := toNat_of_isNameChar h
  simp only [isBlank, Bool.or_eq_false_iff, Bool.and_eq_false_iff, decide_eq_false_iff_not, beq_eq_false_iff_ne]
  omega

theorem isNameChar_of_isNameStart {c : Char} (h : isNameStart c = true) : isNameChar c = true := by
  have hstart : (c.isAlpha || c == '_') = true := h
  show (c.isAlpha || c.isDigit || c == '_') = true
  rw [Bool.or_eq_true] at hstart ⊢
  rw [Bool.or_eq_true]
  exact hstart.imp_left Or.inl

theorem IsName.chars {name : String} (h : IsName name) : ∀ c ∈ name.toList, isNameChar c = true := by
  obtain ⟨c, cs, heq, hstart, hcs⟩ := h
  rw [heq]
  intro d hd
  rcases List.mem_cons.mp hd with rfl | hd
  · exact isNameChar_of_isNameStart hstart
  · exact hcs d hd

theorem IsName.comma {name : String} (h : IsName name) : ',' ∉ name.toList := by
  intro hmem
  exact absurd (h.chars _ hmem) (by decide)

theorem IsName.stopsAt {name : String} (h : IsName name) (cs : List Char) : StopsAt isBlank (name.toList ++ cs) := by
  obtain ⟨c, ds, heq, hstart, -⟩ := h
  rw [heq, List.cons_append]
  exact stopsAt_cons (not_isBlank_of_isNameChar (isNameChar_of_isNameStart hstart)) _

theorem Gap.stopsAt (g : Gap) (cs : List Char) : StopsAt isNameChar (g.chars ++ '=' :: cs) := by
  intro c hc
  cases hg : g.chars with
  | nil =>
    obtain rfl : '=' = c := by simpa [hg] using hc
    decide
  | cons d ds =>
    obtain rfl : d = c := by simpa [hg] using hc
    have hblank : isBlank d = true := g.blank d (hg ▸ List.mem_cons_self)
    cases hname : isNameChar d with
    | false => rfl
    | true =>
      rw [not_isBlank_of_isNameChar hname] at hblank
      cases hblank

section
variable {s : Spaced}

theorem trimmed_value :
    trimmed (s.beforeValue.chars ++ (s.value.canonical.toList ++ s.after.chars)) = s.value.canonical.toList := by
  rw [trimmed_append_left s.beforeValue.blank, Json.toList_canonical]
  exact (Json.unpadded_chars _).trimmed_append s.after.blank

theorem pair?_chars (h : IsName s.name) : pair? s.chars = some (s.name, value s.value.canonical) := by
  have hequals (cs : List Char) : StopsAt isBlank ('=' :: cs) := stopsAt_cons (by decide) cs
  have hfirst : s.name.toList.head?.any isNameStart = true := by
    obtain ⟨c, cs, heq, hstart, -⟩ := h
    simp [heq, hstart]
  have hvalue : '\n' ∉ s.value.canonical.toList := Json.not_mem_canonical (by decide) s.value
  have hline : (s.beforeValue.chars ++ (s.value.canonical.toList ++ s.after.chars)).contains '\n' = false := by
    simp [s.beforeValue.line, hvalue, s.after.line]
  unfold pair? Spaced.chars
  simp only [dropWhile_append_stop s.before.blank (h.stopsAt _), takeWhile_append_stop h.chars (s.afterName.stopsAt _),
    dropWhile_append_stop h.chars (s.afterName.stopsAt _), dropWhile_append_stop s.afterName.blank (hequals _), hfirst,
    hline, trimmed_value, String.ofList_toList]
  rfl

theorem pair_chars (h : Writable (s.name, s.value)) (hv : s.value.IsNormal) :
    pair s.chars = .ok (s.name, s.value) := by
  have hdepth : s.value.depth ≤ 127 := Nat.le_succ_of_le h.depth
  have hvalue : value s.value.canonical = s.value := by
    rw [value, value?_canonical ⟨hdepth, h.floats⟩, hv]
    rfl
  rw [pair, pair?_chars h.name, hvalue]

theorem not_blank_chars : s.chars.all isBlank = false := by
  have hequals : isBlank '=' = false := by decide
  simp [Spaced.chars, hequals]

end

/-! ## Reading all pieces -/

section
variable {p : Piece} {ps : List Piece}

theorem Piece.Sound.comma (h : p.Sound) : ',' ∉ p.chars := by
  cases p with
  | blank gap => exact gap.comma
  | pair s =>
    have hw := (h _ rfl).1
    simp [Piece.chars, Spaced.chars, Gap.comma, hw.name.comma, hw.comma]

theorem mapM_pair (h : ∀ p ∈ ps, p.Sound) :
    ((ps.map Piece.chars).filter fun cs => !cs.all isBlank).mapM pair = .ok (found ps) := by
  induction ps with
  | nil => rfl
  | cons p ps ih =>
    have hp := h p List.mem_cons_self
    have hrest := ih fun q hq => h q (List.mem_cons_of_mem _ hq)
    rw [List.map_cons, List.filter_cons]
    cases p with
    | blank gap =>
      have hblank : gap.chars.all isBlank = true := List.all_eq_true.mpr gap.blank
      simpa [Piece.chars, found, Piece.found?, List.filterMap_cons, hblank] using hrest
    | pair s =>
      obtain ⟨hw, hv⟩ := hp _ rfl
      have hblank : (!(Piece.pair s).chars.all isBlank) = true := congrArg (!·) not_blank_chars
      have hpair : pair (Piece.pair s).chars = .ok (s.name, s.value) := pair_chars hw hv
      rw [if_pos hblank, List.mapM_cons, hpair, hrest]
      rfl

theorem pairs_written (h : ∀ p ∈ ps, p.Sound) : pairs (written ps) = .ok (found ps) := by
  cases ps with
  | nil => rfl
  | cons p ps =>
    have hcomma : ∀ cs ∈ (p :: ps).map Piece.chars, ',' ∉ cs := by
      intro cs hcs
      obtain ⟨q, hq, rfl⟩ := List.mem_map.mp hcs
      exact (h q hq).comma
    unfold pairs written
    rw [pieces_singleton, List.splitOn_intercalate ',' hcomma (by simp)]
    exact mapM_pair h

/-! ## Blanks around the whole text -/

/-- What follows the first piece does not depend on it. -/
theorem written_cons (ps : List Piece) :
    ∃ rest, (rest = [] ∨ ∃ cs, rest = ',' :: cs) ∧ ∀ p : Piece, written (p :: ps) = p.chars ++ rest := by
  cases ps with
  | nil =>
    refine ⟨[], Or.inl rfl, ?_⟩
    intro p
    simp [written]
  | cons q ps =>
    refine ⟨',' :: written (q :: ps), Or.inr ⟨_, rfl⟩, ?_⟩
    intro p
    simp [written, List.intercalate_cons_cons]

/-- What precedes the last piece does not depend on it. -/
theorem written_concat (ps : List Piece) :
    ∃ rest, (rest = [] ∨ ∃ cs, rest = cs ++ [',']) ∧ ∀ p : Piece, written (ps ++ [p]) = rest ++ p.chars := by
  induction ps with
  | nil =>
    refine ⟨[], Or.inl rfl, ?_⟩
    intro p
    simp [written]
  | cons q ps ih =>
    obtain ⟨rest, hend, hrest⟩ := ih
    refine ⟨q.chars ++ ',' :: rest, Or.inr ?_, ?_⟩
    · rcases hend with rfl | ⟨cs, rfl⟩
      · exact ⟨q.chars, rfl⟩
      · exact ⟨q.chars ++ ',' :: cs, by simp⟩
    · intro p
      have hne : (ps ++ [p]).map Piece.chars ≠ [] := by simp
      have hwritten := hrest p
      unfold written at hwritten ⊢
      rw [List.cons_append, List.map_cons, List.intercalate_cons_of_ne_nil hne, hwritten]
      simp

theorem dropWhile_written (h : ∀ p ∈ ps, p.Sound) :
    ∃ qs, written qs = (written ps).dropWhile isBlank ∧ found qs = found ps := by
  cases ps with
  | nil => exact ⟨[], rfl, rfl⟩
  | cons p ps =>
    obtain ⟨rest, hend, hrest⟩ := written_cons ps
    have hstop : StopsAt isBlank rest := by
      rcases hend with rfl | ⟨cs, rfl⟩
      · exact stopsAt_nil _
      · exact stopsAt_cons (by decide) cs
    cases p with
    | blank gap =>
      refine ⟨.blank .none :: ps, ?_, rfl⟩
      rw [hrest, hrest]
      exact (dropWhile_append_stop gap.blank hstop).symm
    | pair s =>
      have hname := (h _ List.mem_cons_self _ rfl).1.name
      refine ⟨.pair { s with before := .none } :: ps, ?_, rfl⟩
      rw [hrest, hrest]
      simp only [Piece.chars, Spaced.chars, List.append_assoc, dropWhile_append_stop s.before.blank (hname.stopsAt _)]
      rfl

theorem last_canonical (cs : List Char) (v : Json) : ∀ c ∈ (cs ++ v.canonical.toList).getLast?, isBlank c = false := by
  rw [Json.toList_canonical, List.getLast?_append_of_ne_nil _ (Json.chars_ne_nil _)]
  exact (Json.unpadded_chars _).last

theorem rdropWhile_written (ps : List Piece) :
    ∃ qs, written qs = (written ps).rdropWhile isBlank ∧ found qs = found ps := by
  rcases List.eq_nil_or_concat ps with rfl | ⟨ps, p, rfl⟩
  · exact ⟨[], rfl, rfl⟩
  · obtain ⟨rest, hend, hrest⟩ := written_concat ps
    cases p with
    | blank gap =>
      refine ⟨ps ++ [.blank .none], ?_, by simp [found, List.filterMap_cons, Piece.found?]⟩
      have hlast : ∀ c ∈ rest.getLast?, isBlank c = false := by
        rcases hend with rfl | ⟨cs, rfl⟩
        · simp
        · simp [isBlank]
      rw [List.concat_eq_append, hrest, hrest]
      exact (List.append_nil rest).trans (rdropWhile_append hlast gap.blank).symm
    | pair s =>
      have hchars (after : Gap) : rest ++ (Piece.pair { s with after := after }).chars =
          (rest ++ (s.before.chars ++ (s.name.toList ++ (s.afterName.chars ++ '=' :: s.beforeValue.chars))) ++
            s.value.canonical.toList) ++ after.chars := by simp [Piece.chars, Spaced.chars]
      refine ⟨ps ++ [.pair { s with after := .none }], ?_, by simp [found, Piece.found?]⟩
      rw [List.concat_eq_append, hrest, hrest, hchars, hchars s.after,
        rdropWhile_append (last_canonical _ s.value) s.after.blank]
      exact List.append_nil _

/-- Without the blanks at its ends a text has the same pairs in it. -/
theorem trimmed_written (h : ∀ p ∈ ps, p.Sound) :
    ∃ qs, written qs = trimmed (written ps) ∧ found qs = found ps := by
  obtain ⟨rs, hrs, hfound⟩ := dropWhile_written h
  obtain ⟨qs, hqs, hfound'⟩ := rdropWhile_written rs
  exact ⟨qs, by rw [hqs, hrs, trimmed_eq], hfound'.trans hfound⟩

theorem Gap.append_ne_brace (g : Gap) {cs : List Char} (h : ∀ ds, cs ≠ '\x7b' :: ds) (ds : List Char) :
    g.chars ++ cs ≠ '\x7b' :: ds := by
  intro heq
  cases hg : g.chars with
  | nil =>
    rw [hg] at heq
    exact h ds heq
  | cons c gs =>
    have hblank : isBlank c = true := g.blank c (hg ▸ List.mem_cons_self)
    rw [hg, List.cons_append] at heq
    rw [(List.cons.inj heq).1] at hblank
    cases hblank

/-- Pairs are never taken for an object. -/
theorem written_ne_brace (h : ∀ p ∈ ps, p.Sound) (ds : List Char) : written ps ≠ '\x7b' :: ds := by
  cases ps with
  | nil => simp [written]
  | cons p ps =>
    obtain ⟨rest, hend, hrest⟩ := written_cons ps
    rw [hrest]
    cases p with
    | blank gap =>
      apply gap.append_ne_brace
      intro ds
      rcases hend with rfl | ⟨cs, rfl⟩ <;> simp
    | pair s =>
      obtain ⟨c, cs, heq, hstart, -⟩ := (h _ List.mem_cons_self _ rfl).1.name
      rw [Piece.chars, Spaced.chars, List.append_assoc]
      apply s.before.append_ne_brace
      intro ds hds
      rw [heq, List.cons_append, List.cons_append] at hds
      rw [(List.cons.inj hds).1] at hstart
      cases hstart

end

/-! ## Both ways -/

theorem options_of_pairs {raw : String} (h : ∀ cs, trimmed raw.toList ≠ '\x7b' :: cs) :
    options raw = (pairs (trimmed raw.toList)).map fun found => ⟨Keyed.ofList found⟩ := by
  unfold options
  split
  · rename_i heq
    exact absurd heq (h _)
  · rfl

section
variable {o : Bag} (h : ∀ p ∈ o.1.entries, Writable p)
include h

theorem options_written {ps : List Piece} (hperm : (found ps).Perm o.1.entries) :
    options (String.ofList (written ps)) = .ok o.1 := by
  have hsorted : Keyed.Sorted o.1.entries := Json.IsNormal.sorted o.2
  have hsound : ∀ qs, found qs = found ps → ∀ q ∈ qs, q.Sound := by
    intro qs hqs q hq p hp
    have hmem : p ∈ o.1.entries := hperm.mem_iff.mp (hqs ▸ List.mem_filterMap.mpr ⟨q, hq, hp⟩)
    exact ⟨h p hmem, Json.IsNormal.find? o.2 (Keyed.find?_of_mem hsorted.nodup hmem)⟩
  obtain ⟨qs, hwritten, hfound⟩ := trimmed_written (hsound ps rfl)
  have hne : ∀ cs, trimmed (String.ofList (written ps)).toList ≠ '\x7b' :: cs := by
    intro cs
    rw [String.toList_ofList, ← hwritten]
    exact written_ne_brace (hsound qs hfound) cs
  rw [options_of_pairs hne, String.toList_ofList, ← hwritten, pairs_written (hsound qs hfound), hfound]
  show Except.ok (Options.mk (Keyed.ofList (found ps))) = _
  rw [Keyed.ofList_perm hsorted hperm]

theorem options_canonical : options o.1.canonical = .ok o.1 := by
  have hnormal : o.1.toJson.normalize = o.1.toJson := o.2
  have hreadable : Json.Readable Json.maxDepth o.1.toJson := by
    apply Json.readable_object.mpr
    intro p hp
    exact ⟨(h p hp).depth, (h p hp).floats⟩
  have hvalue : Json.value? o.1.canonical = some o.1.toJson := by
    rw [Options.canonical, value?_canonical hreadable, hnormal]
  have htext : ∃ cs, trimmed o.1.canonical.toList = '\x7b' :: cs ∧ String.ofList ('\x7b' :: cs) = o.1.canonical := by
    have hchars : o.1.canonical.toList = '\x7b' :: Json.charsMembers o.1.entries := by
      rw [Options.canonical, Json.toList_canonical, hnormal, Options.toJson, Json.chars]
    refine ⟨Json.charsMembers o.1.entries, ?_, ?_⟩
    · rw [← hchars, Options.canonical, Json.toList_canonical]
      exact (Json.unpadded_chars _).trimmed
    · rw [← hchars, String.ofList_toList]
  obtain ⟨cs, htrimmed, hcs⟩ := htext
  unfold options
  rw [htrimmed]
  simp only [hcs, hvalue]
  rfl

end

/-- **Both ways to write options agree.** Options are read back from the JSON object and from pairs,
in whatever order the pairs stand and whatever blanks stand around them. -/
theorem option_syntaxes_agree (o : Bag) (h : ∀ p ∈ o.1.entries, Writable p) :
    options o.1.canonical = .ok o.1 ∧
      ∀ ps : List Piece, (found ps).Perm o.1.entries → options (String.ofList (written ps)) = .ok o.1 := by
  constructor
  · exact options_canonical h
  · intro ps hperm
    exact options_written h hperm

/-- Values that hold equals signs, braces, quotes and escapes. -/
def sampleBag : Options :=
  ⟨[("K", .float (-0.1)), ("_2", .array [.object [("=", .string "\x7b\"\\\n")]]), ("k", .string "a=b")]⟩

/-- The pairs in another order, between blanks of several kinds and empty pieces. -/
def samplePieces : List Piece :=
  let thin : Gap := ⟨[' ', '\r', '\u2009'], by simp [isBlank], by simp⟩
  [.blank .none, .pair ⟨thin, "k", .none, thin, .string "a=b", thin⟩, .blank thin,
    .pair ⟨.none, "_2", thin, .none, .array [.object [("=", .string "\x7b\"\\\n")]], .none⟩,
    .pair ⟨.none, "K", .none, .none, .float (-0.1), thin⟩]

theorem option_syntaxes_agree_sample :
    sampleBag.IsNormal ∧ (∀ p ∈ sampleBag.entries, Writable p) ∧ (found samplePieces).Perm sampleBag.entries ∧
      String.ofList (written samplePieces) =
        ", \r\u2009k= \r\u2009\"a=b\" \r\u2009, \r\u2009,_2 \r\u2009=[\x7b\"=\":\"\x7b\\\"\\\\\\n\"\x7d],K=-0.1 \r\u2009" ∧
      options sampleBag.canonical = .ok sampleBag ∧
      options (String.ofList (written samplePieces)) = .ok sampleBag := by
  have hnormal : sampleBag.IsNormal := by
    show sampleBag.toJson.normalize = sampleBag.toJson
    decide +kernel
  have hwritable : ∀ p ∈ sampleBag.entries, Writable p := by
    intro p hp
    simp only [sampleBag, List.mem_cons, List.not_mem_nil, or_false] at hp
    rcases hp with rfl | rfl | rfl
    · exact ⟨⟨'K', [], rfl, rfl, by simp⟩, by decide, by decide +kernel, by decide +kernel⟩
    · exact ⟨⟨'_', ['2'], rfl, rfl, by simp [isNameChar]⟩, by decide, by decide +kernel, by decide⟩
    · exact ⟨⟨'k', [], rfl, rfl, by simp⟩, by decide, by decide +kernel, by decide⟩
  have hperm : (found samplePieces).Perm sampleBag.entries := by decide +kernel
  have hboth := option_syntaxes_agree ⟨sampleBag, hnormal⟩ hwritable
  exact ⟨hnormal, hwritable, hperm, by decide +kernel, hboth.1, hboth.2 samplePieces hperm⟩

end Argument

end FieldBridge

import FieldBridge.Document.Record
import FieldBridge.Proofs.Calendar.Instant
import FieldBridge.Proofs.Json.Reading
import Mathlib.Data.List.Nodup

/-!
# Records are read back from their JSON forms

A record is restored when it is read from every tree that stands for the same value as
its JSON form and has no member twice: the form as it is written, its normal form, and
all others that differ in the order of their members. Each field is read from the
member that its slot names, so a record is restored when its fields are.
-/

namespace FieldBridge

/-! ## Trees without repeated members -/

namespace Keyed

theorem filter_key {α : Type} {members : List (String × α)} (h : (members.map (·.1)).Nodup) (key : String) :
    members.filter (·.1 == key) = ((find? key members).map (key, ·)).toList := by
  induction members with
  | nil => rfl
  | cons p members ih =>
    rw [List.map_cons, List.nodup_cons] at h
    rw [find?, List.filter_cons]
    by_cases hp : p.1 = key
    · have hrest : members.filter (·.1 == key) = [] := by
        rw [List.filter_eq_nil_iff]
        intro q hq hkey
        exact h.1 (hp ▸ beq_iff_eq.mp hkey ▸ List.mem_map_of_mem hq)
      rw [if_pos (beq_iff_eq.mpr hp), if_pos hp, hrest, ← hp]
      rfl
    · rw [if_neg (fun hkey => hp (beq_iff_eq.mp hkey)), if_neg hp, ih h.2]

theorem find?_of_mem {α : Type} {members : List (String × α)} (h : (members.map (·.1)).Nodup) {p : String × α}
    (hp : p ∈ members) : find? p.1 members = some p.2 := by
  have hmem : p ∈ members.filter (·.1 == p.1) := List.mem_filter.mpr ⟨hp, beq_self_eq_true _⟩
  rw [filter_key h, Option.mem_toList, Option.map_eq_some_iff] at hmem
  obtain ⟨v, hv, heq⟩ := hmem
  rw [hv, ← heq]

theorem Sorted.nodup {α : Type} {members : Keyed α} (h : Sorted members) : (members.map (·.1)).Nodup := by
  rw [List.Nodup, List.pairwise_map]
  exact h.imp fun hlt => String.ne_of_lt hlt

end Keyed

namespace Json

/-- No object in the tree has two members of one name. -/
inductive Plain : Json → Prop where
  | null : Plain null
  | bool (b : Bool) : Plain (bool b)
  | number (n : Number) : Plain (number n)
  | string (s : String) : Plain (string s)
  | array {items : List Json} : (∀ v ∈ items, Plain v) → Plain (array items)
  | object {members : List (String × Json)} : (members.map (·.1)).Nodup → (∀ p ∈ members, Plain p.2) →
      Plain (object members)

theorem plain_of_sorted {members : Keyed Json} (hs : Keyed.Sorted members) (h : ∀ p ∈ members, Plain p.2) :
    Plain (object members) := .object hs.nodup h

theorem mem_normalizeMembers {members : List (String × Json)} {p : String × Json} (h : p ∈ normalizeMembers members) :
    ∃ q ∈ members, q.1 = p.1 ∧ p.2 = q.2.normalize := by
  have hfind := Keyed.find?_of_mem (sorted_normalizeMembers members).nodup h
  rw [find?_normalizeMembers, Option.map_eq_some_iff] at hfind
  obtain ⟨w, hw, hp⟩ := hfind
  exact ⟨(p.1, w), mem_of_last? hw, rfl, hp.symm⟩

theorem plain_normalize (v : Json) : Plain v.normalize := by
  induction v using induct with
  | null => exact .null
  | bool b => exact .bool b
  | number n => exact .number n
  | string s => exact .string s
  | array items ih =>
    rw [normalize, normalizeItems_eq_map]
    exact .array fun w hw => by
      obtain ⟨v, hv, rfl⟩ := List.mem_map.mp hw
      exact ih v hv
  | object members ih =>
    rw [normalize]
    refine plain_of_sorted (sorted_normalizeMembers members) fun p hp => ?_
    obtain ⟨q, hq, -, heq⟩ := mem_normalizeMembers hp
    exact heq ▸ ih q hq

theorem last?_of_nodup {members : List (String × Json)} (h : (members.map (·.1)).Nodup) (key : String) :
    last? key members = Keyed.find? key members := by
  induction members with
  | nil => rfl
  | cons p members ih =>
    rw [List.map_cons, List.nodup_cons] at h
    rw [last?, ih h.2, Keyed.find?]
    by_cases hp : p.1 = key
    · have habsent : Keyed.find? key members = none := by
        rw [← Option.not_isSome_iff_eq_none, Keyed.find?_isSome, ← hp]
        exact h.1
      rw [if_pos hp, if_pos hp, habsent, Option.none_or]
    · rw [if_neg hp, if_neg hp, Option.or_none]

@[simp] theorem last?_append (key : String) (ms ns : List (String × Json)) :
    last? key (ms ++ ns) = (last? key ns).or (last? key ms) := by
  induction ms with
  | nil => simp [last?]
  | cons p ms ih => rw [List.cons_append, last?, ih, last?, Option.or_assoc]

end Json

/-! ## Documents of JSON trees -/

namespace Document

theorem ofItems_eq_map (items : List Json) : ofItems items = items.map ofJson := by
  induction items with
  | nil => rfl
  | cons v items ih => rw [ofItems, ih, List.map_cons]

theorem ofMembers_eq_map (members : List (String × Json)) :
    ofMembers members = members.map fun p => (p.1, ofJson p.2) := by
  induction members with
  | nil => rfl
  | cons p members ih => rw [ofMembers, ih, List.map_cons]

theorem toJson?_ofJson (v : Json) : (ofJson v).toJson? = some v := by
  induction v using Json.induct with
  | null => rfl
  | bool b => rfl
  | number n => rfl
  | string s => rfl
  | array items ih =>
    have hitems : toItems? (ofItems items) = some items := by
      induction items with
      | nil => rfl
      | cons v items ihs =>
        rw [ofItems, toItems?, ih v List.mem_cons_self, ihs fun w hw => ih w (List.mem_cons_of_mem _ hw)]
    rw [ofJson, toJson?, hitems]
    rfl
  | object members ih =>
    have hmembers : toMembers? (ofMembers members) = some members := by
      induction members with
      | nil => rfl
      | cons p members ihs =>
        rw [ofMembers, toMembers?, ih p List.mem_cons_self, ihs fun q hq => ih q (List.mem_cons_of_mem _ hq)]
    rw [ofJson, toJson?, hmembers]
    rfl

/-- The name under which the value of a slot is written. -/
def Slot.name (s : Slot) : String := s.names.headD ""

/-- What an object holds under the name of a slot. -/
def under (v : Json) (s : Slot) : Option Document := (v.member? s.name).map ofJson

/-- Where an object has no member of another of a slot's names, the slot takes the one of its name. -/
theorem named?_ofMembers {members : List (String × Json)} (h : (members.map (·.1)).Nodup) {name : String}
    {others : List String} (hothers : ∀ other ∈ others, Json.last? other members = none) :
    named? (name :: others) (ofMembers members) = some ((Keyed.find? name members).map ofJson) := by
  have hnames : ∀ p ∈ members, (name :: others).contains p.1 = (p.1 == name) := by
    intro p hp
    have habsent : p.1 ∉ others := fun hother => by
      have hsome := Keyed.find?_isSome.mpr (List.mem_map_of_mem (f := (·.1)) hp)
      rw [← Json.last?_of_nodup h, hothers _ hother] at hsome
      cases hsome
    simp [habsent, beq_eq_decide]
  have hfilter : (ofMembers members).filter (fun m => (name :: others).contains m.1) =
      ((Keyed.find? name members).map fun v => (name, ofJson v)).toList := by
    rw [ofMembers_eq_map, List.filter_map, List.filter_congr (q := fun p => p.1 == name) hnames,
      Keyed.filter_key h]
    cases Keyed.find? name members <;> rfl
  rw [named?, hfilter]
  cases Keyed.find? name members <;> rfl

theorem not_isNull_of_same {u w : Json} (h : Json.Same u w) (hw : w ≠ .null) : (ofJson u).isNull = false := by
  cases h with
  | null => exact absurd rfl hw
  | _ => rfl

end Document

/-! ## Records -/

namespace Record

open Document

section
variable {α : Type} [Record α]

/-- What is read from every tree of a value in which no member stands twice. -/
def ReadFrom (w : Json) (a : α) : Prop :=
  ∀ v : Json, v.Plain → Json.Same v w → decode? (ofJson v) = some a

/-- A record is read back from its JSON form. -/
def Restored (a : α) : Prop := ReadFrom (encode a) a

end

/-- An object without repeated members that holds what some members say. -/
structure Form (v : Json) (members : List (String × Json)) : Prop where
  plain : v.Plain
  same : Json.Same v (.object members)

section
variable {v : Json} {members : List (String × Json)} (h : Form v members)
include h

theorem Form.absent {key : String} (hl : Json.last? key members = none) : v.member? key = none := by
  obtain ⟨hplain, hsame⟩ := h
  cases hsame with
  | @object ms _ hsome _ =>
    cases hplain with
    | object hnodup _ =>
      have hnone : (Json.last? key ms).isSome = false := by rw [hsome, hl, Option.isSome_none]
      rw [Json.member?, ← Json.last?_of_nodup hnodup]
      exact Option.not_isSome_iff_eq_none.mp (by simp [hnone])

theorem Form.present {key : String} {w : Json} (hl : Json.last? key members = some w) :
    ∃ u, v.member? key = some u ∧ u.Plain ∧ Json.Same u w := by
  obtain ⟨hplain, hsame⟩ := h
  cases hsame with
  | @object ms _ hsome hvalues =>
    cases hplain with
    | object hnodup hmembers =>
      have hms : (Json.last? key ms).isSome = true := by rw [hsome, hl, Option.isSome_some]
      obtain ⟨u, hu⟩ := Option.isSome_iff_exists.mp hms
      refine ⟨u, ?_, hmembers _ (Json.mem_of_last? hu), hvalues key u w hu hl⟩
      rw [Json.member?, ← Json.last?_of_nodup hnodup, hu]

/-- The slots of a record take the members of their names. -/
theorem Form.slots? {slots : List Slot}
    (hslots : ∀ s ∈ slots, s.names ≠ [] ∧ ∀ other ∈ s.names.tail, Json.last? other members = none) :
    Document.slots? slots (ofJson v) = some (slots.map (under v)) := by
  have hform := h
  obtain ⟨hplain, hsame⟩ := h
  cases hsame with
  | @object ms _ hsome _ =>
    cases hplain with
    | object hnodup _ =>
      show slots.mapM (fun s => named? s.names (ofMembers ms)) = _
      induction slots with
      | nil => rfl
      | cons s slots ih =>
        obtain ⟨hne, hothers⟩ := hslots s List.mem_cons_self
        obtain ⟨name, others, hnames⟩ := List.exists_cons_of_ne_nil hne
        have habsent : ∀ other ∈ others, Json.last? other ms = none := by
          intro other hother
          have hl := hothers other (by rw [hnames]; exact hother)
          rw [Json.last?_of_nodup hnodup]
          exact hform.absent hl
        have hhead : named? s.names (ofMembers ms) = some (under (.object ms) s) := by
          rw [hnames, named?_ofMembers hnodup habsent, under, Slot.name, hnames]
          rfl
        rw [List.mapM_cons, hhead, ih fun t ht => hslots t (List.mem_cons_of_mem _ ht)]
        rfl

variable {α : Type} [Record α] {s : Slot} {w : Json} {a : α}

theorem Form.needed (hl : Json.last? s.name members = some w) (ha : ReadFrom w a) :
    Record.needed (under v s) = some a := by
  obtain ⟨u, hu, hplain, hsame⟩ := h.present hl
  rw [under, hu]
  exact ha u hplain hsame

theorem Form.orElse {b : α} (hl : Json.last? s.name members = some w) (ha : ReadFrom w a) :
    Record.orElse b (under v s) = some a := by
  obtain ⟨u, hu, hplain, hsame⟩ := h.present hl
  rw [under, hu]
  exact ha u hplain hsame

theorem Form.ifAny_some (hl : Json.last? s.name members = some w) (hw : w ≠ .null) (ha : ReadFrom w a) :
    Record.ifAny (under v s) = some (some a) := by
  obtain ⟨u, hu, hplain, hsame⟩ := h.present hl
  have hread : decode? (ofJson u) = some a := ha u hplain hsame
  rw [under, hu]
  show (if (ofJson u).isNull then some none else (decode? (ofJson u)).map some) = _
  rw [not_isNull_of_same hsame hw, hread]
  rfl

theorem Form.ifAny_none (hl : (Json.last? s.name members).getD .null = .null) :
    Record.ifAny (under v s) = some (none : Option α) := by
  cases hlast : Json.last? s.name members with
  | none =>
    rw [under, h.absent hlast]
    rfl
  | some w =>
    obtain ⟨u, hu, -, hsame⟩ := h.present hlast
    rw [hlast, Option.getD_some] at hl
    subst hl
    rw [under, hu]
    cases hsame
    rfl

/-- A value that may be missing is read back where it is left out and where null is written for
it. -/
theorem Form.ifAny {o : Option α} (hl : (Json.last? s.name members).getD .null = (o.map encode).getD .null)
    (ho : ∀ a ∈ o, Restored a ∧ encode a ≠ .null) : Record.ifAny (under v s) = some o := by
  cases o with
  | none => exact h.ifAny_none hl
  | some a =>
    obtain ⟨hrestored, hnull⟩ := ho a rfl
    cases hlast : Json.last? s.name members with
    | none =>
      rw [hlast] at hl
      exact absurd hl.symm hnull
    | some w =>
      rw [hlast] at hl
      obtain rfl : w = encode a := hl
      exact h.ifAny_some hlast hnull hrestored

end

/-! ## Values of fields -/

theorem eq_of_same_string {v : Json} {s : String} (h : Json.Same v (.string s)) : v = .string s := by
  cases h
  rfl

theorem eq_of_same_number {v : Json} {n : Number} (h : Json.Same v (.number n)) : v = .number n := by
  cases h
  rfl

theorem restored_string (s : String) : Restored s := by
  rintro v - hs
  obtain rfl := eq_of_same_string hs
  rfl

theorem restored_bool (b : Bool) : Restored b := by
  rintro v - hs
  cases hs
  rfl

theorem int_eq {n : ℤ} {number : Number} (h : Number.ofInt? n = some number) : Json.int n = .number number := by
  unfold Json.int
  split
  · rename_i heq
    rw [Option.some.inj (h.symm.trans heq)]
  · rename_i heq
    cases h.symm.trans heq

theorem encode_nat {n : ℕ} (hn : n < 0x10000000000000000) : ∃ hrange, encode n = .number (.int n hrange) := by
  have hrange : -0x8000000000000000 ≤ (n : ℤ) ∧ (n : ℤ) < 0x10000000000000000 := by omega
  have hof : Number.ofInt? n = some (.int n hrange) := dif_pos hrange
  have hint : Json.nat n = .number (.int n hrange) := int_eq hof
  exact ⟨hrange, hint⟩

theorem restored_nat {n : ℕ} (hn : n < 0x10000000000000000) : Restored n := by
  rintro v - hs
  obtain ⟨hrange, hencode⟩ := encode_nat hn
  rw [hencode] at hs
  obtain rfl := eq_of_same_number hs
  simp only [decode?, ofJson, number?, Option.bind_some, Number.toNat?, Number.toInt?, Int.natCast_nonneg, if_true,
    Int.toNat_natCast]

/-- A number that may be missing. -/
theorem present_nat {n : ℕ} (hn : n < 0x10000000000000000) : Restored n ∧ encode n ≠ .null := by
  obtain ⟨hrange, hencode⟩ := encode_nat hn
  exact ⟨restored_nat hn, fun heq => by cases hencode.symm.trans heq⟩

/-- A text that may be missing. -/
theorem present_string (s : String) : Restored s ∧ encode s ≠ .null := ⟨restored_string s, nofun⟩

theorem encode_float {x : Float} (hx : x.isFinite = true) : encode x = .number (.float x hx) := by
  show Json.float x = _
  rw [Json.float, Number.ofFloat?, dif_pos hx]

theorem restored_float {x : Float} (hx : x.isFinite = true) : Restored x := by
  rintro v - hs
  rw [encode_float hx] at hs
  obtain rfl := eq_of_same_number hs
  rfl

theorem restored_instant {t : Instant} (ht : t.Dated) : Restored t := by
  rintro v - hs
  have htext : Json.Same v (.string t.text) := hs
  obtain rfl := eq_of_same_string htext
  simp only [decode?, ofJson, text?, Option.bind_some, ht.parse?_text]

theorem restored_ofNames {α : Type} {all : List α} {name : α → String} {a : α}
    (h : all.find? (fun b => name b == name a) = some a) : @Restored α (ofNames all name) a := by
  rintro v - hs
  obtain rfl := eq_of_same_string hs
  exact h

theorem restored_list {α : Type} [Record α] {as : List α} (h : ∀ a ∈ as, Restored a) : Restored as := by
  intro v hv hs
  obtain ⟨vs, rfl, hread⟩ : ∃ vs, v = .array vs ∧ (vs.map ofJson).mapM decode? = some as := by
    induction as generalizing v with
    | nil =>
      cases hs
      exact ⟨[], rfl, rfl⟩
    | cons a as ih =>
      cases hs with
      | @cons u _ us _ hhead htail =>
        cases hv with
        | array hplain =>
          obtain ⟨vs, hvs, hread⟩ := ih (fun b hb => h b (List.mem_cons_of_mem _ hb)) (.array us)
            (.array fun w hw => hplain w (List.mem_cons_of_mem _ hw)) htail
          obtain rfl : us = vs := Json.array.inj hvs
          refine ⟨u :: us, rfl, ?_⟩
          rw [List.map_cons, List.mapM_cons, h a List.mem_cons_self u (hplain u List.mem_cons_self) hhead, hread]
          rfl
  show (ofItems vs).mapM decode? = some as
  rw [ofItems_eq_map, hread]

/-! ## Members of records -/

section
variable {α : Type} [Record α] (key name : String)

@[simp] theorem last?_member (a : α) : Json.last? key (member name a) = if name = key then some (encode a) else none :=
  Option.none_or

@[simp] theorem last?_memberIf (o : Option α) :
    Json.last? key (memberIf name o) = if name = key then o.map encode else none := by
  cases o with
  | none => simp [memberIf, Json.last?]
  | some a => simp [memberIf]

@[simp] theorem last?_memberOrNull (o : Option α) :
    Json.last? key (memberOrNull name o) = if name = key then some ((o.map encode).getD .null) else none :=
  Option.none_or

@[simp] theorem name_slot : (slot name).name = name := rfl

@[simp] theorem name_lastSlot : (lastSlot name).name = name := rfl

@[simp] theorem name_slotOf (names : List String) : (slotOf (name :: names)).name = name := rfl

@[simp] theorem forall_mem_member {a : α} {P : String × Json → Prop} :
    (∀ p ∈ member name a, P p) ↔ P (name, encode a) := List.forall_mem_singleton

@[simp] theorem forall_mem_memberIf {o : Option α} {P : String × Json → Prop} :
    (∀ p ∈ memberIf name o, P p) ↔ ∀ a ∈ o, P (name, encode a) := by
  cases o with
  | none => simp [memberIf]
  | some a =>
    simp only [memberIf, Option.toList_some, List.flatMap_singleton, forall_mem_member, Option.mem_some_iff,
      forall_eq']

@[simp] theorem forall_mem_memberOrNull {o : Option α} {P : String × Json → Prop} :
    (∀ p ∈ memberOrNull name o, P p) ↔ P (name, (o.map encode).getD .null) := List.forall_mem_singleton

end

end Record

/-! ## Forms that the JSON reader can take -/

namespace Json

variable {d : ℕ}

theorem Readable.mono {e : ℕ} {v : Json} (h : Readable d v) (hle : d ≤ e) : Readable e v := ⟨h.1.trans hle, h.2⟩

@[simp] theorem readable_null : Readable d .null := ⟨Nat.zero_le _, by simp [floats]⟩

@[simp] theorem readable_bool (b : Bool) : Readable d (.bool b) := ⟨Nat.zero_le _, by simp [floats]⟩

@[simp] theorem readable_string (s : String) : Readable d (.string s) := ⟨Nat.zero_le _, by simp [floats]⟩

theorem readable_normalize {v : Json} (h : Readable d v) : Readable d v.normalize := by
  induction v using induct generalizing d with
  | null => exact h
  | bool b => exact h
  | number n => exact h
  | string s => exact h
  | array items ih =>
    cases d with
    | zero => exact absurd h not_readable_zero_array
    | succ d =>
      rw [normalize, normalizeItems_eq_map, readable_array]
      intro w hw
      obtain ⟨v, hv, rfl⟩ := List.mem_map.mp hw
      exact ih v hv (readable_array.mp h v hv)
  | object members ih =>
    cases d with
    | zero => exact absurd h not_readable_zero_object
    | succ d =>
      rw [normalize, readable_object]
      intro p hp
      obtain ⟨q, hq, -, heq⟩ := mem_normalizeMembers hp
      exact heq ▸ ih q hq (readable_object.mp h q hq)

end Json

namespace Record

open Json

variable {d : ℕ}

theorem readable_int (n : ℤ) : Readable d (Json.int n) := by
  unfold Json.int
  split
  · rename_i number heq
    unfold Number.ofInt? at heq
    split at heq
    · cases heq
      exact ⟨Nat.zero_le _, by simp [floats]⟩
    · cases heq
  · exact readable_null

@[simp] theorem readable_nat (n : ℕ) : Readable d (encode n) :=
  have h : Readable d (Json.nat n) := readable_int n
  h

@[simp] theorem readable_text (s : String) : Readable d (encode s) := readable_string s

@[simp] theorem readable_flag (b : Bool) : Readable d (encode b) := readable_bool b

@[simp] theorem readable_instant (t : Instant) : Readable d (encode t) := readable_string t.text

@[simp] theorem readable_ofNames {α : Type} (all : List α) (name : α → String) (a : α) :
    Readable d (@encode α (ofNames all name) a) := readable_string (name a)

theorem readable_float {x : Float} (hx : Number.Legible x) : Readable d (encode x) := by
  obtain ⟨hfinite, -⟩ := id hx
  rw [encode_float hfinite]
  exact ⟨Nat.zero_le _, by simpa [floats] using hx⟩

theorem readable_orNull {α : Type} [Record α] {o : Option α} (h : ∀ a ∈ o, Readable d (encode a)) :
    Readable d ((o.map encode).getD .null) := by
  cases o with
  | none => exact readable_null
  | some a => exact h a rfl

theorem readable_list {α : Type} [Record α] {as : List α} (h : ∀ a ∈ as, Readable d (encode a)) :
    Readable (d + 1) (encode as) :=
  readable_array.mpr fun v hv => by
    obtain ⟨a, ha, rfl⟩ := List.mem_map.mp hv
    exact h a ha

end Record

end FieldBridge

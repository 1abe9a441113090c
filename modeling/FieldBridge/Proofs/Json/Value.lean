import FieldBridge.Json.Basic
import FieldBridge.Proofs.Keyed

/-!
# The value of a JSON tree

Two trees stand for the same value when they agree at every place, with the members
of objects taken by key and not by their place in the text. Normal forms are the
representatives: two trees stand for the same value exactly when their normal forms
are equal, and a normal form stands for itself.
-/

namespace FieldBridge.Json

/-- Induction over values with a hypothesis for each item and each member. -/
theorem induct {motive : Json → Prop} (null : motive null) (bool : ∀ b, motive (bool b))
    (number : ∀ n, motive (number n)) (string : ∀ s, motive (string s))
    (array : ∀ items, (∀ v ∈ items, motive v) → motive (array items))
    (object : ∀ members : List (String × Json), (∀ p ∈ members, motive p.2) → motive (object members)) :
    ∀ v, motive v
  | .null => null
  | .bool b => bool b
  | .number n => number n
  | .string s => string s
  | .array items => array items fun v _ => induct null bool number string array object v
  | .object members => object members fun p _ => induct null bool number string array object p.2
termination_by v => sizeOf v
decreasing_by
  · have := List.sizeOf_lt_of_mem ‹v ∈ items›
    simp only [Json.array.sizeOf_spec]
    omega
  · have := List.sizeOf_lt_of_mem ‹p ∈ members›
    have : sizeOf p = 1 + sizeOf p.1 + sizeOf p.2 := rfl
    simp only [Json.object.sizeOf_spec]
    omega

/-- The member that counts under a key: the last one written. -/
def last? (key : String) : List (String × Json) → Option Json
  | [] => none
  | (k, v) :: rest => (last? key rest).or (if k = key then some v else none)

theorem mem_of_last? {key : String} {v : Json} {members : List (String × Json)} (h : last? key members = some v) :
    (key, v) ∈ members := by
  induction members with
  | nil => cases h
  | cons p members ih =>
    rw [last?, Option.or_eq_some_iff] at h
    rcases h with h | ⟨_, h⟩
    · exact List.mem_cons_of_mem _ (ih h)
    · split at h
      · rename_i hk
        obtain rfl := Option.some.inj h
        exact hk ▸ List.mem_cons_self ..
      · cases h

/-- Structural equality of values. Numbers are equal by representation, arrays item by item,
and objects by what they hold under each key, in whatever order it was written. -/
inductive Same : Json → Json → Prop where
  | null : Same null null
  | bool (b : Bool) : Same (bool b) (bool b)
  | number (n : Number) : Same (number n) (number n)
  | string (s : String) : Same (string s) (string s)
  | nil : Same (array []) (array [])
  | cons {v w : Json} {vs ws : List Json} : Same v w → Same (array vs) (array ws) →
      Same (array (v :: vs)) (array (w :: ws))
  | object {ms ns : List (String × Json)} :
      (∀ key, (last? key ms).isSome = (last? key ns).isSome) →
      (∀ key v w, last? key ms = some v → last? key ns = some w → Same v w) →
      Same (object ms) (object ns)

/-! ## Normal forms -/

theorem normalizeItems_eq_map (items : List Json) : normalizeItems items = items.map normalize := by
  induction items with
  | nil => rfl
  | cons v items ih => rw [normalizeItems, ih, List.map_cons]

theorem sorted_normalizeMembers (members : List (String × Json)) : Keyed.Sorted (normalizeMembers members) := by
  induction members with
  | nil => exact List.Pairwise.nil
  | cons p members ih =>
    rw [normalizeMembers]
    exact Keyed.sorted_insertAbsent _ _ ih

theorem find?_normalizeMembers (key : String) (members : List (String × Json)) :
    Keyed.find? key (normalizeMembers members) = (last? key members).map normalize := by
  induction members with
  | nil => rfl
  | cons p members ih =>
    rw [normalizeMembers, Keyed.find?_insertAbsent _ _ _ (sorted_normalizeMembers members), ih, last?]
    cases last? key members with
    | some v => rfl
    | none => split <;> rfl

theorem normalize_eq_of_same {v w : Json} (h : Same v w) : v.normalize = w.normalize := by
  induction h with
  | null => rfl
  | bool b => rfl
  | number n => rfl
  | string s => rfl
  | nil => rfl
  | cons _ _ ihv ihs =>
    simp only [normalize, array.injEq] at ihs
    simp only [normalize, normalizeItems, ihv, ihs]
  | @object ms ns hsome _ ih =>
    simp only [normalize, object.injEq]
    refine Keyed.ext (sorted_normalizeMembers ms) (sorted_normalizeMembers ns) fun key => ?_
    rw [find?_normalizeMembers, find?_normalizeMembers]
    have := hsome key
    cases hv : last? key ms with
    | none =>
      cases hw : last? key ns with
      | none => rfl
      | some w => simp [hv, hw] at this
    | some v =>
      cases hw : last? key ns with
      | none => simp [hv, hw] at this
      | some w => simp [ih key v w hv hw]

theorem same_of_normalize_eq {v w : Json} (h : v.normalize = w.normalize) : Same v w := by
  induction v using induct generalizing w with
  | null => cases w <;> simp_all [normalize, Same.null]
  | bool b => cases w <;> simp_all [normalize, Same.bool]
  | number n => cases w <;> simp_all [normalize, Same.number]
  | string s => cases w <;> simp_all [normalize, Same.string]
  | array vs ih =>
    cases w with
    | array ws =>
      simp only [normalize, array.injEq, normalizeItems_eq_map] at h
      induction vs generalizing ws with
      | nil =>
        obtain rfl : ws = [] := by simpa using h.symm
        exact .nil
      | cons v vs ihs =>
        cases ws with
        | nil => simp at h
        | cons w ws =>
          simp only [List.map_cons, List.cons.injEq] at h
          exact .cons (ih v (List.mem_cons_self ..) h.1)
            (ihs (fun u hu => ih u (List.mem_cons_of_mem _ hu)) ws h.2)
    | _ => simp [normalize] at h
  | object ms ih =>
    cases w with
    | object ns =>
      simp only [normalize, object.injEq] at h
      have hfind : ∀ key, (last? key ms).map normalize = (last? key ns).map normalize := fun key => by
        rw [← find?_normalizeMembers, h, find?_normalizeMembers]
      refine .object (fun key => ?_) fun key v w hv hw => ?_
      · simpa using congrArg Option.isSome (hfind key)
      · have := hfind key
        rw [hv, hw] at this
        exact ih (key, v) (mem_of_last? hv) (Option.some.inj this)
    | _ => simp [normalize] at h

/-- **Normal forms decide sameness.** -/
theorem same_iff_normalize_eq {v w : Json} : Same v w ↔ v.normalize = w.normalize :=
  ⟨normalize_eq_of_same, same_of_normalize_eq⟩

theorem last?_of_sorted {members : Keyed Json} (h : Keyed.Sorted members) (key : String) :
    last? key members = Keyed.find? key members := by
  induction members with
  | nil => rfl
  | cons p members ih =>
    have hp := List.pairwise_cons.mp h
    rw [last?, ih hp.2, Keyed.find?]
    by_cases hk : p.1 = key
    · rw [if_pos hk, if_pos hk, Keyed.find?_eq_none_of_lt (hk ▸ hp.1), Option.none_or]
    · rw [if_neg hk, if_neg hk, Option.or_none]

theorem same_normalize (v : Json) : Same v.normalize v := by
  induction v using induct with
  | null => exact .null
  | bool b => exact .bool b
  | number n => exact .number n
  | string s => exact .string s
  | array vs ih =>
    rw [normalize, normalizeItems_eq_map]
    induction vs with
    | nil => exact .nil
    | cons v vs ihs =>
      exact .cons (ih v (List.mem_cons_self ..)) (ihs fun u hu => ih u (List.mem_cons_of_mem _ hu))
  | object ms ih =>
    have hfind : ∀ key, last? key (normalizeMembers ms) = (last? key ms).map normalize := fun key => by
      rw [last?_of_sorted (sorted_normalizeMembers ms), find?_normalizeMembers]
    refine .object (fun key => ?_) fun key v w hv hw => ?_
    · rw [hfind, Option.isSome_map]
    · rw [hfind, hw, Option.map_some] at hv
      obtain rfl := Option.some.inj hv
      exact ih (key, w) (mem_of_last? hw)

/-! ## Values in normal form -/

/-- A tree that is the value it stands for. -/
def IsNormal (v : Json) : Prop := v.normalize = v

theorem isNormal_normalize (v : Json) : IsNormal v.normalize := normalize_eq_of_same (same_normalize v)

theorem isNormal_array {items : List Json} (h : ∀ v ∈ items, IsNormal v) : IsNormal (array items) := by
  rw [IsNormal, normalize, normalizeItems_eq_map, List.map_congr_left (g := id) h, List.map_id]

theorem normalizeMembers_of_sorted {members : Keyed Json} (hs : Keyed.Sorted members)
    (hn : ∀ p ∈ members, IsNormal p.2) : normalizeMembers members = members := by
  refine Keyed.ext (sorted_normalizeMembers members) hs fun key => ?_
  rw [find?_normalizeMembers, last?_of_sorted hs]
  cases h : Keyed.find? key members with
  | none => rfl
  | some v => rw [Option.map_some, hn _ (Keyed.mem_of_find? h)]

theorem isNormal_object {members : Keyed Json} (hs : Keyed.Sorted members) (hn : ∀ p ∈ members, IsNormal p.2) :
    IsNormal (object members) := by
  rw [IsNormal, normalize, normalizeMembers_of_sorted hs hn]

theorem IsNormal.sorted {members : Keyed Json} (h : IsNormal (object members)) : Keyed.Sorted members := by
  rw [IsNormal, normalize] at h
  rw [← object.inj h]
  exact sorted_normalizeMembers members

theorem IsNormal.find? {members : Keyed Json} (h : IsNormal (object members)) {key : String} {v : Json}
    (hf : Keyed.find? key members = some v) : IsNormal v := by
  rw [IsNormal, normalize] at h
  rw [← object.inj h, find?_normalizeMembers, Option.map_eq_some_iff] at hf
  obtain ⟨w, -, rfl⟩ := hf
  exact isNormal_normalize w

end FieldBridge.Json

import FieldBridge.Field.Table
import Mathlib.Data.List.Basic

/-!
# Field tables find what they hold

The positions in the index of a table are those of fields with the id they stand under. A list
without repeated ids makes a table, and any other fails at the first id that is repeated.
-/

namespace FieldBridge.FieldTable

variable {α : Type} [Identified α]

/-- Every position stands under the id of the field that is there. -/
def Points (fields : List α) (index : List (String × Nat)) : Prop :=
  ∀ p ∈ index, ∃ f, fields[p.2]? = some f ∧ Identified.id f = p.1

theorem points_indexFrom (before rest : List α) {index index' : List (String × Nat)}
    (hi : Points (before ++ rest) index) (h : indexFrom before.length index rest = .ok index') :
    Points (before ++ rest) index' := by
  induction rest generalizing before index with
  | nil =>
    cases h
    exact hi
  | cons f rest ih =>
    rw [indexFrom] at h
    split at h
    · cases h
    · have hmore : Points ((before ++ [f]) ++ rest) ((Identified.id f, before.length) :: index) := by
        intro p hp
        rw [List.append_assoc, List.singleton_append]
        rcases List.mem_cons.mp hp with rfl | hp
        · exact ⟨f, by simp, rfl⟩
        · exact hi p hp
      have := ih (before ++ [f]) hmore (by rw [List.length_append]; exact h)
      rwa [List.append_assoc, List.singleton_append] at this

/-! ## One position for each id -/

/-- The id of a field that repeats one before it, where none before repeats any. -/
def FirstRepeated (fields : List α) (id : String) : Prop :=
  ∃ before f after, fields = before ++ f :: after ∧ (before.map Identified.id).Nodup ∧
    Identified.id f = id ∧ id ∈ before.map Identified.id

/-- An index leads from each id to the one position where a field has it. -/
def Indexes (fields : List α) (index : List (String × Nat)) : Prop :=
  ∀ id position, index.lookup id = some position ↔ ∃ f, fields[position]? = some f ∧ Identified.id f = id

variable {fields before : List α} {index : List (String × Nat)} {t : FieldTable α}

theorem indexes_nil : Indexes ([] : List α) [] := by
  intro id position
  simp

theorem Indexes.isSome_iff (h : Indexes fields index) (id : String) :
    (index.lookup id).isSome = true ↔ id ∈ fields.map Identified.id := by
  rw [Option.isSome_iff_exists, List.mem_map]
  constructor
  · intro ⟨position, hposition⟩
    obtain ⟨f, hf, hid⟩ := (h id position).mp hposition
    exact ⟨f, List.mem_of_getElem? hf, hid⟩
  · intro ⟨f, hf, hid⟩
    obtain ⟨position, hposition⟩ := List.mem_iff_getElem?.mp hf
    exact ⟨position, (h id position).mpr ⟨f, hposition, hid⟩⟩

theorem Indexes.snoc (h : Indexes before index) {f : α} (hf : index.lookup (Identified.id f) = none) :
    Indexes (before ++ [f]) ((Identified.id f, before.length) :: index) := by
  intro id position
  rw [List.lookup_cons]
  by_cases hid : id = Identified.id f
  · subst hid
    simp only [beq_self_eq_true, Option.some.injEq]
    constructor
    · intro hposition
      exact ⟨f, hposition ▸ List.getElem?_concat_length, rfl⟩
    · intro ⟨g, hg, hsame⟩
      by_cases hlt : position < before.length
      -- a field with this id among those before would have been found
      · rw [List.getElem?_append_left hlt] at hg
        rw [(h (Identified.id f) position).mpr ⟨g, hg, hsame⟩] at hf
        cases hf
      · have hbound := (List.getElem?_eq_some_iff.mp hg).1
        simp only [List.length_append, List.length_singleton] at hbound
        omega
  · simp only [beq_eq_false_iff_ne.mpr hid]
    rw [h id position]
    constructor
    · intro ⟨g, hg, hsame⟩
      have hlt : position < before.length := (List.getElem?_eq_some_iff.mp hg).1
      exact ⟨g, by rw [List.getElem?_append_left hlt, hg], hsame⟩
    · intro ⟨g, hg, hsame⟩
      by_cases hlt : position < before.length
      · rw [List.getElem?_append_left hlt] at hg
        exact ⟨g, hg, hsame⟩
      · rw [List.getElem?_append_right (by omega), List.getElem?_singleton] at hg
        split at hg
        · cases hg
          exact absurd hsame.symm hid
        · cases hg

/-- Fields are indexed one after another, up to the first that repeats an id. -/
theorem indexFrom_cases (rest : List α) (h : Indexes before index) (hnodup : (before.map Identified.id).Nodup) :
    (∃ index', indexFrom before.length index rest = .ok index' ∧ Indexes (before ++ rest) index' ∧
      ((before ++ rest).map Identified.id).Nodup) ∨
    ∃ id, indexFrom before.length index rest = .error id ∧ FirstRepeated (before ++ rest) id := by
  induction rest generalizing before index with
  | nil =>
    rw [List.append_nil]
    exact .inl ⟨index, rfl, h, hnodup⟩
  | cons f rest ih =>
    rw [indexFrom]
    by_cases hf : (index.lookup (Identified.id f)).isSome
    · rw [if_pos hf]
      exact .inr ⟨_, rfl, before, f, rest, rfl, hnodup, rfl, (h.isSome_iff _).mp hf⟩
    · rw [if_neg hf]
      have hnew : Identified.id f ∉ before.map Identified.id := fun hmem => hf ((h.isSome_iff _).mpr hmem)
      have hsnoc : ((before ++ [f]).map Identified.id).Nodup := by
        rw [List.map_append, List.map_singleton, List.nodup_append]
        refine ⟨hnodup, List.pairwise_singleton _ _, ?_⟩
        intro id hid id' hid' he
        rw [List.mem_singleton.mp hid'] at he
        exact hnew (he ▸ hid)
      have hrest := ih (h.snoc (Option.not_isSome_iff_eq_none.mp hf)) hsnoc
      rwa [List.length_append, List.length_singleton, List.append_assoc, List.singleton_append] at hrest

theorem not_nodup_of_repeated {f : α} (h : Identified.id f ∈ before.map Identified.id) (after : List α) :
    ¬((before ++ f :: after).map Identified.id).Nodup := by
  intro hnodup
  rw [List.map_append, List.map_cons, List.nodup_append] at hnodup
  exact hnodup.2.2 _ h _ List.mem_cons_self rfl

theorem FirstRepeated.not_nodup {id : String} (h : FirstRepeated fields id) : ¬(fields.map Identified.id).Nodup := by
  obtain ⟨before, f, after, rfl, -, rfl, hmem⟩ := h
  exact not_nodup_of_repeated hmem after

theorem FirstRepeated.unique {id id' : String} (h : FirstRepeated fields id) (h' : FirstRepeated fields id') :
    id = id' := by
  obtain ⟨before, f, after, rfl, hnodup, rfl, hmem⟩ := h
  obtain ⟨before', f', after', hsplit, hnodup', rfl, hmem'⟩ := h'
  -- of two repeats at different positions the earlier one would stand before the later one
  obtain ⟨between, hbefore, hrest⟩ | ⟨between, hbefore, hrest⟩ := List.append_eq_append_iff.mp hsplit
  · cases between with
    | nil => rw [(List.cons.inj hrest).1]
    | cons g between =>
      rw [hbefore, ← (List.cons.inj hrest).1] at hnodup'
      exact absurd hnodup' (not_nodup_of_repeated hmem between)
  · cases between with
    | nil => rw [(List.cons.inj hrest).1]
    | cons g between =>
      rw [hbefore, ← (List.cons.inj hrest).1] at hnodup
      exact absurd hnodup (not_nodup_of_repeated hmem' between)

theorem ofList_cases (fields : List α) :
    (∃ t, ofList fields = .ok t ∧ t.fields = fields ∧ Indexes fields t.index ∧ Points fields t.index ∧
      (fields.map Identified.id).Nodup) ∨
    ∃ id, ofList fields = .error id ∧ FirstRepeated fields id := by
  obtain ⟨index, hindex, hindexes, hnodup⟩ | ⟨id, herror, hrepeated⟩ := indexFrom_cases fields indexes_nil .nil
  · have hpoints : Points fields index := points_indexFrom [] fields (fun _ hp => absurd hp List.not_mem_nil) hindex
    exact .inl ⟨⟨fields, index⟩, congrArg (Except.map _) hindex, rfl, hindexes, hpoints, hnodup⟩
  · exact .inr ⟨id, congrArg (Except.map _) herror, hrepeated⟩

theorem Indexes.get?_eq_some_iff (h : Indexes t.fields t.index) {id : String} {f : α} :
    t.get? id = some f ↔ f ∈ t.fields ∧ Identified.id f = id := by
  rw [get?, Option.bind_eq_some_iff]
  constructor
  · intro ⟨position, hposition, hf⟩
    obtain ⟨g, hg, hid⟩ := (h id position).mp hposition
    obtain rfl := Option.some.inj (hg.symm.trans hf)
    exact ⟨List.mem_of_getElem? hf, hid⟩
  · intro ⟨hmem, hid⟩
    obtain ⟨position, hf⟩ := List.mem_iff_getElem?.mp hmem
    exact ⟨position, (h id position).mpr ⟨f, hf, hid⟩, hf⟩

theorem id_of_get? (h : ofList fields = .ok t) {id : String} {f : α} (hf : t.get? id = some f) :
    Identified.id f = id := by
  obtain ⟨t', ht', rfl, hindexes, -⟩ | ⟨_, herror, -⟩ := ofList_cases fields
  · obtain rfl := Except.ok.inj (h.symm.trans ht')
    exact (hindexes.get?_eq_some_iff.mp hf).2
  · rw [herror] at h
    cases h

theorem Indexes.get?_eq_none_iff (h : Indexes t.fields t.index) {id : String} :
    t.get? id = none ↔ ∀ f ∈ t.fields, Identified.id f ≠ id := by
  rw [Option.eq_none_iff_forall_ne_some]
  simp only [ne_eq, h.get?_eq_some_iff, not_and]

/-- **A table is its list, known by ids.** It is made of a list exactly when the ids are distinct, and
otherwise the first repeated one is reported. It keeps the list, finds under each id the field that
has it and nothing under any other, and no position in it is past the end of the list. -/
theorem ofList_keeps (fields : List α) :
    ((∃ t, ofList fields = .ok t) ↔ (fields.map Identified.id).Nodup) ∧
    (∀ id, ofList fields = .error id ↔ FirstRepeated fields id) ∧
    ∀ t, ofList fields = .ok t → t.fields = fields ∧
      (∀ id f, t.get? id = some f ↔ f ∈ fields ∧ Identified.id f = id) ∧
      (∀ id, t.get? id = none ↔ ∀ f ∈ fields, Identified.id f ≠ id) ∧
      ∀ p ∈ t.index, p.2 < fields.length := by
  obtain ⟨t, ht, rfl, hindexes, hpoints, hnodup⟩ | ⟨id, herror, hrepeated⟩ := ofList_cases fields
  · rw [ht]
    refine ⟨iff_of_true ⟨t, rfl⟩ hnodup, fun id => ?_, ?_⟩
    · exact iff_of_false nofun fun hrepeated => hrepeated.not_nodup hnodup
    · rintro t' ⟨⟩
      refine ⟨rfl, fun _ _ => hindexes.get?_eq_some_iff, fun _ => hindexes.get?_eq_none_iff, ?_⟩
      intro p hp
      obtain ⟨f, hf, -⟩ := hpoints p hp
      exact (List.getElem?_eq_some_iff.mp hf).1
  · rw [herror]
    refine ⟨iff_of_false nofun hrepeated.not_nodup, fun id' => ?_, nofun⟩
    constructor
    · intro h
      exact Except.error.inj h ▸ hrepeated
    · intro h
      rw [hrepeated.unique h]

/-- Three fields make a table that finds each of them, and with a fourth that repeats the second they
make none. -/
theorem ofList_keeps_three :
    let a : SourceField := { id := "a", name := "A", kind := .text }
    let b : SourceField := { id := "b", name := "B", kind := .number }
    let c : SourceField := { id := "", name := "C", kind := .date }
    let again : SourceField := { id := "b", name := "Again", kind := .url }
    ofList [a, b, c] = .ok ⟨[a, b, c], [("", 2), ("b", 1), ("a", 0)]⟩ ∧
      (FieldTable.mk [a, b, c] [("", 2), ("b", 1), ("a", 0)]).get? "b" = some b ∧
      ofList [a, b, c, again, a] = .error "b" := by
  intro a b c again
  have h : ofList [a, b, c] = .ok ⟨[a, b, c], [("", 2), ("b", 1), ("a", 0)]⟩ := by rfl
  have hmem : b ∈ [a, b, c] := by decide
  refine ⟨h, ?_, ?_⟩
  · exact (((ofList_keeps [a, b, c]).2.2 _ h).2.1 "b" b).mpr ⟨hmem, rfl⟩
  · exact ((ofList_keeps [a, b, c, again, a]).2.1 "b").mpr ⟨[a, b, c], again, [a], rfl, by decide, rfl, by decide⟩

end FieldBridge.FieldTable

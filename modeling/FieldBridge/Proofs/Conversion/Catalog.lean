import FieldBridge.Conversion.Catalog
import Mathlib.Data.List.Basic

/-!
# What a catalog finds

A catalog that was made by registering conversions finds each of them by its id, and
each of those between two kinds by these kinds, and finds nothing else. An id that
was taken once stands for the same conversion ever after.
-/

namespace FieldBridge.Catalog

structure Indexed (c : Catalog) : Prop where
  idBound : ∀ p ∈ c.byId, p.2 < c.size
  pairBound : ∀ p ∈ c.byPair, p.2 < c.size
  get?_iff : ∀ {id t}, c.get? id = some t ↔ t ∈ c.conversions ∧ t.id = id
  find?_iff : ∀ {source target t}, c.find? source target = some t ↔
    t ∈ c.conversions ∧ t.source = source ∧ t.target = target ∧ source ≠ target

theorem indexed_empty : Indexed empty where
  idBound _ hp := absurd hp List.not_mem_nil
  pairBound _ hp := absurd hp List.not_mem_nil
  get?_iff {_ _} := ⟨(fun h => nomatch h), fun h => absurd h.1 List.not_mem_nil⟩
  find?_iff {_ _ _} := ⟨(fun h => nomatch h), fun h => absurd h.1 List.not_mem_nil⟩

section
variable {κ α : Type} [BEq κ] [LawfulBEq κ] {index : List (κ × Nat)} {as : List α}

/-- Positions below the size of a list find the same in a longer one. -/
theorem lookup_append (hb : ∀ p ∈ index, p.2 < as.length) (key : κ) (a : α) :
    ((index.lookup key).bind fun position => (as ++ [a])[position]?) =
      (index.lookup key).bind fun position => as[position]? := by
  cases h : index.lookup key with
  | none => rfl
  | some position =>
    obtain ⟨before, after, hsplit, -⟩ := List.lookup_eq_some_iff.mp h
    have hlt : position < as.length := hb (key, position) (by rw [hsplit]; simp)
    exact List.getElem?_append_left hlt

theorem lookup_cons_append [DecidableEq κ] (hb : ∀ p ∈ index, p.2 < as.length) (key new : κ) (a : α) :
    ((((new, as.length) :: index).lookup key).bind fun position => (as ++ [a])[position]?) =
      if key = new then some a else (index.lookup key).bind fun position => as[position]? := by
  by_cases h : key = new
  · subst h
    rw [List.lookup_cons_self, if_pos rfl]
    exact List.getElem?_concat_length
  · rw [List.lookup_cons, beq_eq_false_iff_ne.mpr h, if_neg h]
    exact lookup_append hb key a

end

variable {c c' : Catalog} {t : Conversion}

theorem get?_append (hc : c.Indexed) (id : String) :
    (c.append t).get? id = if id = t.id then some t else c.get? id :=
  lookup_cons_append hc.idBound id t.id t

theorem find?_append (hc : c.Indexed) (source target : Kind) : (c.append t).find? source target =
    if source = t.source ∧ target = t.target ∧ source ≠ target then some t else c.find? source target := by
  rw [find?, append]
  dsimp only
  split
  case isTrue hsame =>
    rw [if_neg (by rintro ⟨rfl, rfl, hne⟩; exact hne hsame)]
    exact lookup_append hc.pairBound _ t
  case isFalse hne =>
    refine (lookup_cons_append hc.pairBound (source, target) (t.source, t.target) t).trans ?_
    by_cases hp : source = t.source ∧ target = t.target
    · obtain ⟨rfl, rfl⟩ := hp
      rw [if_pos rfl, if_pos ⟨rfl, rfl, hne⟩]
    · rw [if_neg (by rwa [Prod.mk.injEq]), if_neg fun h => hp ⟨h.1, h.2.1⟩]
      rfl

theorem mem_available {source target : Kind} :
    t ∈ c.available source target ↔ t ∈ c.conversions ∧ t.source = source ∧ t.target = target := by
  simp [available]

/-! ## When a conversion is taken -/

theorem isSome_lookup_byId (hc : c.Indexed) (id : String) :
    (c.byId.lookup id).isSome = true ↔ ∃ u ∈ c.conversions, u.id = id := by
  constructor
  · intro h
    obtain ⟨position, hl⟩ := Option.isSome_iff_exists.mp h
    obtain ⟨before, after, hsplit, -⟩ := List.lookup_eq_some_iff.mp hl
    have hlt : position < c.conversions.length := hc.idBound (id, position) (by rw [hsplit]; simp)
    have hget : c.get? id = some c.conversions[position] := by simp [get?, hl, hlt]
    exact ⟨_, hc.get?_iff.mp hget⟩
  · rintro ⟨u, hu, hid⟩
    obtain ⟨position, hl, -⟩ := Option.bind_eq_some_iff.mp (hc.get?_iff.mpr ⟨hu, hid⟩)
    rw [hl]
    rfl

theorem Indexed.find?_eq_none_iff (hc : c.Indexed) {source target : Kind} (hne : source ≠ target) :
    c.find? source target = none ↔ c.available source target = [] := by
  rw [Option.eq_none_iff_forall_ne_some, List.eq_nil_iff_forall_not_mem]
  refine forall_congr' fun t => not_congr ?_
  rw [hc.find?_iff, mem_available]
  tauto

theorem refusal?_eq_none_iff (hc : c.Indexed) : c.refusal? t = none ↔ (∀ u ∈ c.conversions, u.id ≠ t.id) ∧
    (t.source ≠ t.target → t.target.accepts t.source = false ∧ c.available t.source t.target = []) := by
  have hid := isSome_lookup_byId hc t.id
  unfold refusal?
  split
  case isTrue h =>
    obtain ⟨u, hu, he⟩ := hid.mp h
    simp only [reduceCtorEq, false_iff, not_and]
    intro hfree
    exact absurd he (hfree u hu)
  case isFalse h =>
    have hfree : ∀ u ∈ c.conversions, u.id ≠ t.id := fun u hu he => h (hid.mpr ⟨u, hu, he⟩)
    split
    case isTrue hs => simp [and_iff_right hfree, hs]
    case isFalse hs =>
      rw [← hc.find?_eq_none_iff hs]
      cases t.target.accepts t.source with
      | true => simp [hs]
      | false => simp [and_iff_right hfree, hs]

theorem register_of_free (h : c.refusal? t = none) : c.register t = (.ok (), c.append t) := by
  rw [register, h]

theorem register_of_refusal {refusal : Refusal} (h : c.refusal? t = some refusal) :
    c.register t = (.error (.registration t.id refusal), c) := by
  rw [register, h]

theorem register_eq_ok_iff : c.register t = (.ok (), c') ↔ c.refusal? t = none ∧ c' = c.append t := by
  cases h : c.refusal? t with
  | none => simp [register_of_free h, eq_comm]
  | some refusal => simp [register_of_refusal h]

/-- A conversion that is refused leaves the catalog as it was. -/
theorem register_refused {e : Error} (he : (c.register t).1 = .error e) : (c.register t).2 = c := by
  cases h : c.refusal? t with
  | none =>
    rw [register_of_free h] at he
    cases he
  | some refusal => rw [register_of_refusal h]

/-- A conversion is taken under an id of its own, and between two kinds that have none. -/
theorem register_eq_ok (hc : c.Indexed) (h : c.register t = (.ok (), c')) :
    c' = c.append t ∧ (∀ u ∈ c.conversions, u.id ≠ t.id) ∧
      (t.source ≠ t.target → ∀ u ∈ c.conversions, ¬(u.source = t.source ∧ u.target = t.target)) := by
  obtain ⟨hr, rfl⟩ := register_eq_ok_iff.mp h
  obtain ⟨hfree, hpair⟩ := (refusal?_eq_none_iff hc).mp hr
  refine ⟨rfl, hfree, fun hne u hu hk => ?_⟩
  have hmem : u ∈ c.available t.source t.target := mem_available.mpr ⟨hu, hk⟩
  rw [(hpair hne).2] at hmem
  cases hmem

/-! ## What is found behind a conversion that was taken -/

theorem Indexed.get?_append_iff (hc : c.Indexed) (hid : ∀ u ∈ c.conversions, u.id ≠ t.id) {id : String}
    {u : Conversion} : (c.append t).get? id = some u ↔ u ∈ c.conversions ++ [t] ∧ u.id = id := by
  rw [get?_append hc, List.mem_append, List.mem_singleton]
  split
  case isTrue he =>
    subst he
    constructor
    · intro h
      obtain rfl := Option.some.inj h
      exact ⟨.inr rfl, rfl⟩
    · rintro ⟨hu | rfl, hu'⟩
      · exact absurd hu' (hid u hu)
      · rfl
  case isFalse hne =>
    rw [hc.get?_iff]
    constructor
    · exact fun h => ⟨.inl h.1, h.2⟩
    · rintro ⟨hu | rfl, hu'⟩
      · exact ⟨hu, hu'⟩
      · exact absurd hu'.symm hne

theorem Indexed.find?_append_iff (hc : c.Indexed)
    (hpair : t.source ≠ t.target → ∀ u ∈ c.conversions, ¬(u.source = t.source ∧ u.target = t.target))
    {source target : Kind} {u : Conversion} : (c.append t).find? source target = some u ↔
      u ∈ c.conversions ++ [t] ∧ u.source = source ∧ u.target = target ∧ source ≠ target := by
  rw [find?_append hc, List.mem_append, List.mem_singleton]
  split
  case isTrue he =>
    obtain ⟨rfl, rfl, hne⟩ := he
    constructor
    · intro h
      obtain rfl := Option.some.inj h
      exact ⟨.inr rfl, rfl, rfl, hne⟩
    · rintro ⟨hu | rfl, hs, ht, -⟩
      · exact absurd ⟨hs, ht⟩ (hpair hne u hu)
      · rfl
  case isFalse hno =>
    rw [hc.find?_iff]
    constructor
    · exact fun h => ⟨.inl h.1, h.2⟩
    · rintro ⟨hu | rfl, hs, ht, hne⟩
      · exact ⟨hu, hs, ht, hne⟩
      · exact absurd ⟨hs.symm, ht.symm, hne⟩ hno

theorem Indexed.register (hc : c.Indexed) (h : c.register t = (.ok (), c')) : c'.Indexed := by
  obtain ⟨rfl, hid, hpair⟩ := register_eq_ok hc h
  have hsize : (c.append t).size = c.size + 1 := List.length_append
  refine ⟨fun p hp => ?_, fun p hp => ?_, hc.get?_append_iff hid, hc.find?_append_iff hpair⟩
  · rw [hsize]
    rcases List.mem_cons.mp hp with rfl | hp
    · exact Nat.lt_succ_self _
    · exact Nat.lt_succ_of_lt (hc.idBound p hp)
  · rw [hsize]
    rw [append] at hp
    dsimp only at hp
    split at hp
    · exact Nat.lt_succ_of_lt (hc.pairBound p hp)
    · rcases List.mem_cons.mp hp with rfl | hp
      · exact Nat.lt_succ_self _
      · exact Nat.lt_succ_of_lt (hc.pairBound p hp)

theorem Indexed.after_register (hc : c.Indexed) (t : Conversion) : (c.register t).2.Indexed := by
  cases hr : c.refusal? t with
  | none =>
    have htaken := register_of_free hr
    rw [htaken]
    exact hc.register htaken
  | some refusal =>
    rw [register_of_refusal hr]
    exact hc

/-- An id that is taken stands for the same conversion ever after. -/
theorem Indexed.get?_register (hc : c.Indexed) (h : c.register t = (.ok (), c')) {id : String} {u : Conversion}
    (hu : c.get? id = some u) : c'.get? id = some u := by
  obtain ⟨rfl, hid, -⟩ := register_eq_ok hc h
  obtain ⟨hmem, rfl⟩ := hc.get?_iff.mp hu
  rw [get?_append hc, if_neg (hid u hmem), hu]

theorem Indexed.get?_eq_none (hc : c.Indexed) {id : String} :
    c.get? id = none ↔ ∀ t ∈ c.conversions, t.id ≠ id := by
  rw [Option.eq_none_iff_forall_ne_some]
  exact ⟨fun h t ht he => h t (hc.get?_iff.mpr ⟨ht, he⟩), fun h t ht => h t (hc.get?_iff.mp ht).1 (hc.get?_iff.mp ht).2⟩

end FieldBridge.Catalog

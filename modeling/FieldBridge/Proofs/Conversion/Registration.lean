import FieldBridge.Proofs.Conversion.Catalog

/-!
# What a catalog can hold

Conversions are offered to a catalog one after another, and those it refuses leave it
as it was. Ids are then distinct, two kinds have at most one conversion between them,
and none where values fit as they are.
-/

namespace FieldBridge.Catalog

/-- The catalog after a conversion was offered to it. -/
def offer (c : Catalog) (t : Conversion) : Catalog := (c.register t).2

def offerAll (c : Catalog) (ts : List Conversion) : Catalog := ts.foldl offer c

structure Orderly (c : Catalog) : Prop extends Indexed c where
  ids : (c.conversions.map (·.id)).Nodup
  /-- at most one between distinct kinds, and that is what is found -/
  declared : ∀ source target, source ≠ target → c.available source target = (c.find? source target).toList
  indirect : ∀ source target, source ≠ target → target.accepts source = true → c.available source target = []
  same : ∀ kind, c.find? kind kind = none

structure Decides (c : Catalog) (t : Conversion) : Prop where
  refused_iff : (∃ e, (c.register t).1 = .error e) ↔ (∃ u ∈ c.conversions, u.id = t.id) ∨
    t.source ≠ t.target ∧ (t.target.accepts t.source = true ∨ c.available t.source t.target ≠ [])
  refused : ∀ e, (c.register t).1 = .error e → c.offer t = c
  taken : (c.register t).1 = .ok () → (c.offer t).conversions = c.conversions ++ [t]
  listed : t.source = t.target → (∀ u ∈ c.conversions, u.id ≠ t.id) → t ∈ (c.offer t).available t.source t.target

variable {c c' : Catalog} {t : Conversion}

theorem available_append (t : Conversion) (source target : Kind) : (c.append t).available source target =
    c.available source target ++ if t.source = source ∧ t.target = target then [t] else [] := by
  simp only [available, append, List.filter_append, List.filter_cons, List.filter_nil]
  simp

/-! ## Offers one after another -/

theorem orderly_empty : Orderly empty where
  toIndexed := indexed_empty
  ids := .nil
  declared _ _ _ := rfl
  indirect _ _ _ _ := rfl
  same _ := rfl

theorem Orderly.append (hc : c.Orderly) (hr : c.refusal? t = none) : (c.append t).Orderly := by
  obtain ⟨hfree, hpair⟩ := (refusal?_eq_none_iff hc.toIndexed).mp hr
  have hi : (c.append t).Indexed := hc.toIndexed.register (register_of_free hr)
  refine ⟨hi, ?_, ?_, ?_, ?_⟩
  · rw [Catalog.append, List.map_append, List.nodup_append]
    refine ⟨hc.ids, List.pairwise_singleton _ _, ?_⟩
    simp only [List.mem_map, List.map_cons, List.map_nil, List.mem_singleton]
    rintro _ ⟨u, hu, rfl⟩ _ rfl
    exact hfree u hu
  · intro source target hne
    rw [available_append, find?_append hc.toIndexed]
    by_cases h : t.source = source ∧ t.target = target
    · obtain ⟨rfl, rfl⟩ := h
      rw [(hpair hne).2]
      simp [hne]
    · have h' : ¬(source = t.source ∧ target = t.target ∧ source ≠ target) := fun h' => h ⟨h'.1.symm, h'.2.1.symm⟩
      rw [if_neg h, if_neg h', hc.declared source target hne, List.append_nil]
  · intro source target hne ha
    rw [available_append, hc.indirect source target hne ha, if_neg]
    · rfl
    · rintro ⟨rfl, rfl⟩
      rw [(hpair hne).1] at ha
      cases ha
  · intro kind
    rw [find?_append hc.toIndexed, if_neg fun h => h.2.2 rfl]
    exact hc.same kind

theorem Orderly.offer (hc : c.Orderly) (t : Conversion) : (c.offer t).Orderly := by
  rw [Catalog.offer]
  cases hr : c.refusal? t with
  | none =>
    rw [register_of_free hr]
    exact hc.append hr
  | some refusal =>
    rw [register_of_refusal hr]
    exact hc

theorem Orderly.offerAll (hc : c.Orderly) (ts : List Conversion) : (c.offerAll ts).Orderly := by
  induction ts generalizing c with
  | nil => exact hc
  | cons t ts ih => exact ih (hc.offer t)

theorem Orderly.decides (hc : c.Orderly) (t : Conversion) : c.Decides t where
  refused_iff := by
    have hnone := refusal?_eq_none_iff hc.toIndexed (t := t)
    have herror : (∃ e, (c.register t).1 = .error e) ↔ ¬c.refusal? t = none := by
      cases hr : c.refusal? t with
      | none => simp [register_of_free hr]
      | some refusal => simp [register_of_refusal hr]
    rw [herror, hnone]
    constructor
    · intro h
      by_contra! hno
      refine h ⟨hno.1, fun hne => ?_⟩
      have := hno.2 hne
      exact ⟨by simpa using this.1, this.2⟩
    · rintro (⟨u, hu, he⟩ | ⟨hne, ha | ha⟩) ⟨hfree, hpair⟩
      · exact hfree u hu he
      · rw [(hpair hne).1] at ha
        cases ha
      · exact ha (hpair hne).2
  refused e he := register_refused he
  taken hok := by
    obtain ⟨-, htaken⟩ := register_eq_ok_iff.mp (Prod.ext hok rfl : c.register t = (.ok (), c.offer t))
    rw [htaken]
    rfl
  listed hs hfree := by
    have hr : c.refusal? t = none := (refusal?_eq_none_iff hc.toIndexed).mpr ⟨hfree, fun hne => absurd hs hne⟩
    have ho : c.offer t = c.append t := by rw [Catalog.offer, register_of_free hr]
    rw [ho, available_append, if_pos ⟨rfl, rfl⟩]
    simp

/-- **Catalogs are orderly.** Whatever conversions were offered to an empty catalog, it finds what
it holds and nothing else, and takes a further one exactly when its id is free and its kinds, if
they differ, have none between them and need none. -/
theorem offerAll_orderly (ts : List Conversion) :
    (empty.offerAll ts).Orderly ∧ ∀ t, (empty.offerAll ts).Decides t :=
  ⟨orderly_empty.offerAll ts, fun t => (orderly_empty.offerAll ts).decides t⟩

end FieldBridge.Catalog

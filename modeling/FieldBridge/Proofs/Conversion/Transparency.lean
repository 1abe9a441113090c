import FieldBridge.Proofs.Cache.Key
import FieldBridge.Proofs.Cache.Representation
import FieldBridge.Proofs.Conversion.Apply
import FieldBridge.Proofs.Conversion.Catalog

/-!
# Applying conversions through an honest cache

A cache is honest for a catalog if each of its results is the one that a conversion of
the catalog gives for a call with the key it stands under. An honest cache changes no
result, and stays honest: a key belongs to one call, an id to one conversion, and
nothing but a successful result is ever stored.
-/

namespace FieldBridge

/-- No cache: it misses every lookup and stores nothing. -/
def Cache.absent : Cache := .empty { enabled := false }

/-- Values in normal form: programs hold objects with their members sorted by name. -/
abbrev Value := { v : Json // v.IsNormal }

abbrev Bag := { o : Options // o.IsNormal }

/-- A stored result is that of a conversion of the catalog. -/
def Backed (c : Catalog) (key : String) (result : Json) : Prop :=
  ∃ (t : Conversion) (v : Value) (o : Bag), c.get? t.id = some t ∧ key = cacheKey t.id v o ∧ t.run v o = .ok result

def Honest (c : Catalog) (cache : Cache) : Prop := ∀ p ∈ cache.entries, Backed c p.1 p.2.value

/-- Two outcomes that differ in nothing but honest caches. -/
structure Alike {α : Type} (c : Catalog) (x y : α × Cache) : Prop where
  result : x.1 = y.1
  left : Honest c x.2
  right : Honest c y.2

/-- Between two kinds the conversion that is found is applied as by its id. -/
theorem Catalog.Indexed.apply_eq_applyById {c : Catalog} (hc : c.Indexed) {source target : Kind} (hs : source ≠ target)
    {t : Conversion} (hf : c.find? source target = some t) (cache : Cache) (value : Json) (options : Options) :
    c.apply cache source target value options = c.applyById cache t.id value options := by
  have ht : c.get? t.id = some t := hc.get?_iff.mpr ⟨(hc.find?_iff.mp hf).1, rfl⟩
  rw [Catalog.apply, if_neg hs, hf, Catalog.applyById, ht]

def Applied.outcome (a : Applied) : (Json × Option Warning) × Cache := ((a.value, a.warning), a.cache)

theorem Alike.pair {α : Type} {c : Catalog} {x y : α × Cache} (h : Alike c x y) :
    ∃ r a b, x = (r, a) ∧ y = (r, b) ∧ Honest c a ∧ Honest c b := by
  obtain ⟨r, a⟩ := x
  obtain ⟨_, b⟩ := y
  obtain ⟨rfl, ha, hb⟩ := h
  exact ⟨r, a, b, rfl, rfl, ha, hb⟩

namespace Honest

variable {c : Catalog} {cache : Cache}

theorem empty (c : Catalog) (settings : CacheSettings) (clock : Clock) : Honest c (.empty settings clock) :=
  fun _ hp => absurd hp List.not_mem_nil

theorem subset (h : Honest c cache) {after : Cache} (hs : after.entries ⊆ cache.entries) : Honest c after :=
  fun p hp => h p (hs hp)

/-- An honest cache stays honest when further conversions are registered. -/
theorem register (hc : c.Indexed) (h : Honest c cache) (t : Conversion) : Honest (c.register t).2 cache := by
  cases hr : c.refusal? t with
  | none =>
    intro p hp
    obtain ⟨u, v, o, hu, hkey, hrun⟩ := h p hp
    have htaken := Catalog.register_of_free hr
    rw [htaken]
    exact ⟨u, v, o, hc.get?_register htaken hu, hkey, hrun⟩
  | some refusal =>
    rw [Catalog.register_of_refusal hr]
    exact h

theorem find? (h : Honest c cache) {id : String} (v : Value) (o : Bag) {e : CacheEntry}
    (hf : cache.find? (cacheKey id v o) = some e) : ∃ t, c.get? id = some t ∧ t.run v o = .ok e.value := by
  have hm : (cacheKey id v o, e) ∈ cache.entries := List.mem_reverse.mp (Cache.mem_queue_of_find? hf)
  obtain ⟨t, w, p, ht, hkey, hrun⟩ := h _ hm
  -- equal keys are equal calls, so that the result found is the one asked for
  obtain ⟨rfl, hv, ho⟩ := (cacheKey_inj v.2 w.2 o.2 p.2).mp hkey
  exact ⟨t, ht, by rw [hv, ho, hrun]⟩

theorem get (h : Honest c cache) (id : String) (v : Value) (o : Bag) :
    Honest c (cache.get id v o).2 ∧
      ∀ r, (cache.get id v o).1 = some r → ∃ t, c.get? id = some t ∧ t.run v o = .ok r := by
  rw [Cache.get]
  split
  · exact ⟨h, fun r hr => nomatch hr⟩
  · dsimp only
    cases hf : cache.find? (cacheKey id v o) with
    | none => exact ⟨h, fun r hr => nomatch hr⟩
    | some e =>
      dsimp only
      split
      · exact ⟨h.subset (Cache.entries_remove _ _), fun r hr => nomatch hr⟩
      · refine ⟨h, fun r hr => ?_⟩
        obtain rfl := Option.some.inj hr
        exact h.find? v o hf

theorem set (h : Honest c cache) {t : Conversion} (ht : c.get? t.id = some t) (v : Value) (o : Bag) {r : Json}
    (hr : t.run v o = .ok r) (ttl : Option Nat) : Honest c (cache.set t.id v o r ttl) := by
  rw [Cache.set]
  split
  · exact h
  · intro p hp
    rcases List.mem_cons.mp hp with rfl | hp
    · exact ⟨t, v, o, ht, rfl, hr⟩
    · exact h p (Cache.entries_remove _ _ (Cache.entries_evictTo _ _ hp))

theorem updateSettings (h : Honest c cache) (u : SettingsUpdate) : Honest c (cache.updateSettings u).2 := by
  rw [Cache.updateSettings]
  split
  · exact h
  · exact h.subset (Cache.entries_evictTo { cache with settings := cache.settings.apply u } _)

/-- A conversion that is run through the cache gives its own result. -/
theorem runCached (h : Honest c cache) {t : Conversion} (ht : c.get? t.id = some t) (v : Value) (o : Bag) :
    (t.runCached cache v o).1 = t.run v o ∧ Honest c (t.runCached cache v o).2 := by
  obtain ⟨hafter, hfound⟩ := h.get t.id v o
  rw [Conversion.runCached, Cache.getOrCompute]
  generalize cache.get t.id v o = got at hafter hfound
  obtain ⟨found, after⟩ := got
  cases found with
  | some r =>
    obtain ⟨u, hu, hrun⟩ := hfound r rfl
    obtain rfl := Option.some.inj (ht.symm.trans hu)
    exact ⟨hrun.symm, hafter⟩
  | none =>
    cases hrun : t.run v o with
    | error e => exact ⟨rfl, hafter⟩
    | ok r => exact ⟨rfl, hafter.set ht v o hrun none⟩

theorem tryApply (hc : c.Indexed) (h : Honest c cache) (id : String) (v : Value) (o : Bag) :
    Honest c (c.tryApply cache id v o).2 ∧
      (∀ t, c.get? id = some t → (c.tryApply cache id v o).1 = (t.run v o).mapError (.conversionFailed id)) ∧
      (c.get? id = none → (c.tryApply cache id v o).1 = .error (.conversionNotFound id)) := by
  rw [Catalog.tryApply]
  cases ht : c.get? id with
  | none => exact ⟨h, fun t ht => absurd ht (Option.some_ne_none t).symm, fun _ => rfl⟩
  | some t =>
    obtain rfl := (hc.get?_iff.mp ht).2
    obtain ⟨hresult, hafter⟩ := h.runCached ht v o
    refine ⟨hafter, fun u hu => ?_, fun hno => absurd hno (Option.some_ne_none t)⟩
    obtain rfl := Option.some.inj hu
    exact congrArg (Except.mapError _) hresult

theorem applyById (hc : c.Indexed) (h : Honest c cache) (id : String) (v : Value) (o : Bag) :
    Honest c (c.applyById cache id v o).cache := by
  rw [(c.applyById_eq_tryApply _ _ _ _).2]
  exact (h.tryApply hc id v o).1

theorem apply (hc : c.Indexed) (h : Honest c cache) (source target : Kind) (v : Value) (o : Bag) :
    Honest c (c.apply cache source target v o).cache := by
  by_cases hs : source = target
  · rw [Catalog.apply, if_pos hs]
    exact h
  · cases hf : c.find? source target with
    | none =>
      rw [Catalog.apply, if_neg hs, hf]
      exact h
    | some t =>
      rw [hc.apply_eq_applyById hs hf]
      exact h.applyById hc t.id v o

end Honest

/-! ## Two honest caches -/

section
variable {c : Catalog} {a b : Cache}

theorem Conversion.runCached_alike {t : Conversion} (ht : c.get? t.id = some t) (ha : Honest c a) (hb : Honest c b)
    (v : Value) (o : Bag) : Alike c (t.runCached a v o) (t.runCached b v o) := by
  obtain ⟨hra, haa⟩ := ha.runCached ht v o
  obtain ⟨hrb, hba⟩ := hb.runCached ht v o
  exact ⟨hra.trans hrb.symm, haa, hba⟩

theorem Conversion.apply_alike {t : Conversion} (ht : c.get? t.id = some t) (ha : Honest c a) (hb : Honest c b)
    (v : Value) (o : Bag) : Alike c (t.apply a v o).outcome (t.apply b v o).outcome := by
  obtain ⟨r, a', b', hx, hy, haa, hba⟩ := (Conversion.runCached_alike ht ha hb v o).pair
  rw [Conversion.apply, Conversion.apply, hx, hy]
  cases r with
  | ok r => exact ⟨rfl, haa, hba⟩
  | error e => exact ⟨rfl, haa, hba⟩

theorem Catalog.applyById_alike (hc : c.Indexed) (ha : Honest c a) (hb : Honest c b) (id : String) (v : Value)
    (o : Bag) : Alike c (c.applyById a id v o).outcome (c.applyById b id v o).outcome := by
  rw [Catalog.applyById, Catalog.applyById]
  cases ht : c.get? id with
  | none => exact ⟨rfl, ha, hb⟩
  | some t =>
    obtain rfl := (hc.get?_iff.mp ht).2
    exact Conversion.apply_alike ht ha hb v o

end

end FieldBridge

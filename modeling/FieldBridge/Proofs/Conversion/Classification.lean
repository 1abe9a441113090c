import FieldBridge.Compatibility
import FieldBridge.Conversion.Apply
import FieldBridge.Proofs.Cache.Counting
import FieldBridge.Proofs.Conversion.Registration

/-!
# Classification and application agree

How two kinds relate is said of the kinds and of the conversions that were registered. What
a catalog says of two kinds is this relation, and so is what it does with a value.
-/

namespace FieldBridge

/-- How a source kind relates to a destination kind. -/
def Catalog.Relates (c : Catalog) (destination source : Kind) : Status → Prop
  | .compatible => destination = source ∨ source ∈ destination.directSources
  | .requiresConversion => ¬(destination = source ∨ source ∈ destination.directSources) ∧
      ∃ t ∈ c.conversions, t.source = source ∧ t.target = destination
  | .incompatible => ¬(destination = source ∨ source ∈ destination.directSources) ∧
      ¬∃ t ∈ c.conversions, t.source = source ∧ t.target = destination

/-- The bucket of a status. -/
def Recommended.bucket (r : Recommended) : Status → List SourceField
  | .compatible => r.direct
  | .requiresConversion => r.converted
  | .incompatible => r.incompatible

/-- A value is looked up once and computed where it was not found. -/
structure LooksUpOnce (t : Conversion) (v : Json) (o : Options) (before after : Cache) : Prop where
  cache : after = (before.getOrCompute t.id v o fun _ => t.run v o).2
  counted : Counted t.id (Lookups.record {} (before.get t.id v o).1.isSome) before after

namespace Catalog

/-- What a catalog says of two kinds and what it does with a value between them. -/
structure Agrees (c : Catalog) (destination source : Kind) : Prop where
  status_iff : ∀ s, (c.classify destination source).status = s ↔ c.Relates destination source s
  conversion_iff : ∀ id, (c.classify destination source).conversion = some id ↔
    c.Relates destination source .requiresConversion ∧
      ∃ t ∈ c.conversions, t.id = id ∧ t.source = source ∧ t.target = destination
  converted : (c.classify destination source).status = .requiresConversion → ∃ t,
    (c.classify destination source).conversion = some t.id ∧ c.get? t.id = some t ∧
      c.available source destination = [t] ∧ ∀ cache v o, c.apply cache source destination v o = t.apply cache v o ∧
        LooksUpOnce t v o cache (c.apply cache source destination v o).cache
  unchanged : (c.classify destination source).status ≠ .requiresConversion → ∀ cache v o,
    (c.apply cache source destination v o).value = v ∧ (c.apply cache source destination v o).cache = cache
  canConvert_iff : source ≠ destination →
    (c.canConvert source destination = true ↔ (c.classify destination source).status = .requiresConversion)

/-- Every source field stands in the bucket of its status, and the buckets keep the order. -/
structure Sorts (c : Catalog) (sources : List SourceField) (destination : Kind) : Prop where
  mem_iff : ∀ s f, f ∈ (c.recommend sources destination).bucket s ↔
    f ∈ sources ∧ (c.classify destination f.kind).status = s
  sublist : ∀ s, ((c.recommend sources destination).bucket s).Sublist sources
  perm : (Status.all.flatMap (c.recommend sources destination).bucket).Perm sources

variable {c : Catalog} {destination source : Kind}

theorem accepts_eq_true_iff : destination.accepts source = true ↔
    destination = source ∨ source ∈ destination.directSources := by
  simp [Kind.accepts]

/-! ## What stands behind a classification -/

inductive Footing (c : Catalog) (destination source : Kind) : Prop
  | direct (accepted : destination = source ∨ source ∈ destination.directSources)
      (classified : c.classify destination source = .direct)
      (found : c.find? source destination = none)
      (held : source ≠ destination → c.available source destination = [])
  | through (t : Conversion) (refused : ¬(destination = source ∨ source ∈ destination.directSources))
      (classified : c.classify destination source = .through t)
      (found : c.find? source destination = some t)
      (held : c.available source destination = [t])
  | none (refused : ¬(destination = source ∨ source ∈ destination.directSources))
      (classified : ∃ message, c.classify destination source = .refused message)
      (found : c.find? source destination = none)
      (held : c.available source destination = [])

theorem Orderly.footing (hc : c.Orderly) (destination source : Kind) : c.Footing destination source := by
  by_cases ha : destination.accepts source = true
  · have hclassify : c.classify destination source = .direct := by
      simp [classify, ha]
    by_cases hs : source = destination
    · refine .direct (accepts_eq_true_iff.mp ha) hclassify ?_ (fun hne => absurd hs hne)
      rw [hs]
      exact hc.same destination
    · have hheld := hc.indirect source destination hs ha
      exact .direct (accepts_eq_true_iff.mp ha) hclassify ((hc.find?_eq_none_iff hs).mpr hheld) fun _ => hheld
  · have hno : ¬(destination = source ∨ source ∈ destination.directSources) := by
      rwa [← accepts_eq_true_iff]
    have hs : source ≠ destination := by
      intro he
      exact hno (Or.inl he.symm)
    have hheld := hc.declared source destination hs
    cases hf : c.find? source destination with
    | some t =>
      rw [hf] at hheld
      refine .through t hno ?_ hf hheld
      simp [classify, ha, hf]
    | none =>
      rw [hf] at hheld
      refine .none hno ⟨s!"{source.label} cannot be mapped to {destination.label}", ?_⟩ hf hheld
      simp [classify, ha, hf]

theorem Footing.status_iff (h : c.Footing destination source) (s : Status) :
    (c.classify destination source).status = s ↔ c.Relates destination source s := by
  have hholds : (∃ t ∈ c.conversions, t.source = source ∧ t.target = destination) ↔
      ∃ t, t ∈ c.available source destination := by
    simp [mem_available]
  cases h with
  | direct accepted classified =>
    rw [classified]
    cases s <;> simp [Relates, accepted, Compatibility.direct]
  | through t refused classified _ held =>
    rw [classified]
    cases s <;> simp [Relates, refused, Compatibility.through, hholds, held]
  | none refused classified _ held =>
    obtain ⟨message, classified⟩ := classified
    rw [classified]
    cases s <;> simp [Relates, refused, Compatibility.refused, hholds, held]

theorem Footing.conversion_iff (h : c.Footing destination source) (id : String) :
    (c.classify destination source).conversion = some id ↔ c.Relates destination source .requiresConversion ∧
      ∃ t ∈ c.conversions, t.id = id ∧ t.source = source ∧ t.target = destination := by
  have hholds : (∃ t ∈ c.conversions, t.id = id ∧ t.source = source ∧ t.target = destination) ↔
      ∃ t ∈ c.available source destination, t.id = id := by
    simp only [mem_available]
    constructor
    · rintro ⟨t, ht, hid, hkinds⟩
      exact ⟨t, ⟨ht, hkinds⟩, hid⟩
    · rintro ⟨t, ⟨ht, hkinds⟩, hid⟩
      exact ⟨t, ht, hid, hkinds⟩
  rw [← h.status_iff, hholds]
  cases h with
  | direct accepted classified => simp [classified, Compatibility.direct]
  | through t refused classified _ held => simp [classified, Compatibility.through, held]
  | none refused classified _ held =>
    obtain ⟨message, classified⟩ := classified
    simp [classified, Compatibility.refused]

/-! ## What is done with a value -/

theorem apply_unchanged (hf : c.find? source destination = none) (cache : Cache) (v : Json) (o : Options) :
    (c.apply cache source destination v o).value = v ∧ (c.apply cache source destination v o).cache = cache := by
  unfold apply
  split
  · exact ⟨rfl, rfl⟩
  · rw [hf]
    exact ⟨rfl, rfl⟩

theorem apply_eq {t : Conversion} (hs : source ≠ destination) (hf : c.find? source destination = some t)
    (cache : Cache) (v : Json) (o : Options) : c.apply cache source destination v o = t.apply cache v o := by
  rw [apply, if_neg hs, hf]

theorem cache_apply (t : Conversion) (cache : Cache) (v : Json) (o : Options) :
    (t.apply cache v o).cache = (cache.getOrCompute t.id v o fun _ => t.run v o).2 := by
  simp only [Conversion.apply, Conversion.runCached]
  split
  · rename_i h
    rw [h]
  · rename_i h
    rw [h]

theorem canConvert_eq_true_iff : c.canConvert source destination = true ↔ c.available source destination ≠ [] := by
  simp [canConvert]

theorem Orderly.agrees (hc : c.Orderly) (destination source : Kind) : c.Agrees destination source := by
  have h := hc.footing destination source
  refine ⟨h.status_iff, h.conversion_iff, ?_, ?_, ?_⟩
  · intro hs
    cases h with
    | direct _ classified => simp [classified, Compatibility.direct] at hs
    | none _ classified =>
      obtain ⟨message, classified⟩ := classified
      simp [classified, Compatibility.refused] at hs
    | through t refused classified found held =>
      have ht := hc.find?_iff.mp found
      refine ⟨t, ?_, hc.get?_iff.mpr ⟨ht.1, rfl⟩, held, ?_⟩
      · rw [classified]
        rfl
      · intro cache v o
        have happly := apply_eq ht.2.2.2 found cache v o
        have hcache := cache_apply t cache v o
        rw [← happly] at hcache
        refine ⟨happly, hcache, ?_⟩
        rw [hcache]
        exact Counted.getOrCompute cache t.id v o _
  · intro hs cache v o
    cases h with
    | direct _ _ found => exact apply_unchanged found cache v o
    | none _ _ found => exact apply_unchanged found cache v o
    | through t _ classified => simp [classified, Compatibility.through] at hs
  · intro hne
    rw [canConvert_eq_true_iff]
    cases h with
    | direct _ classified _ held => simp [classified, Compatibility.direct, held hne]
    | through t _ classified _ held => simp [classified, Compatibility.through, held]
    | none _ classified _ held =>
      obtain ⟨message, classified⟩ := classified
      simp [classified, Compatibility.refused, held]

/-! ## Fields by status -/

theorem bucket_recommend (sources : List SourceField) (s : Status) :
    (c.recommend sources destination).bucket s =
      sources.filter fun f => (c.classify destination f.kind).status == s := by
  cases s <;> rfl

theorem perm_filter_status (status : SourceField → Status) (sources : List SourceField) :
    (Status.all.flatMap fun s => sources.filter fun f => status f == s).Perm sources := by
  simp only [Status.all, List.flatMap_cons, List.flatMap_nil, List.append_nil]
  induction sources with
  | nil => rfl
  | cons f sources ih =>
    cases h : status f with
    | compatible => simpa [List.filter_cons, h] using ih
    | requiresConversion =>
      simp only [List.filter_cons, h]
      exact List.perm_middle.trans (ih.cons f)
    | incompatible =>
      simp only [List.filter_cons, h]
      rw [← List.append_assoc] at ih ⊢
      exact List.perm_middle.trans (ih.cons f)

theorem sorts (c : Catalog) (sources : List SourceField) (destination : Kind) : c.Sorts sources destination := by
  refine ⟨?_, ?_, ?_⟩
  · intro s f
    simp [bucket_recommend]
  · intro s
    rw [bucket_recommend]
    exact List.filter_sublist
  · have hbuckets : (c.recommend sources destination).bucket =
        fun s => sources.filter fun f => (c.classify destination f.kind).status == s :=
      funext (bucket_recommend sources)
    rw [hbuckets]
    exact perm_filter_status _ sources

/-- **Classification and application agree.** Whatever conversions were offered to an empty catalog,
it says of two kinds how they relate, looks a value up exactly once where a conversion is required,
and leaves value and cache alone otherwise. -/
theorem offerAll_agrees (ts : List Conversion) :
    (∀ destination source, (empty.offerAll ts).Agrees destination source) ∧
      ∀ sources destination, (empty.offerAll ts).Sorts sources destination :=
  ⟨(orderly_empty.offerAll ts).agrees, sorts _⟩

end Catalog

end FieldBridge

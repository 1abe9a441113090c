import FieldBridge.Compatibility
import FieldBridge.Conversion.Apply
import FieldBridge.Conversion.Builtin
import FieldBridge.Proofs.Conversion.Catalog

/-!
# The order of registration

Whether conversions can stand in one catalog depends on each of them alone and on any two of
them. So they are taken in any order if they are taken in one, and what is found, said and done
with them afterwards is the same.
-/

namespace FieldBridge

namespace Conversion

/-- Between equal kinds, or between kinds of which the second does not take values of the first. -/
def IsNeeded (t : Conversion) : Prop := t.source ≠ t.target → t.target.accepts t.source = false

/-- Two conversions with ids of their own that are not between the same two distinct kinds. -/
structure Apart (t u : Conversion) : Prop where
  id : t.id ≠ u.id
  kinds : t.source = u.source → t.target = u.target → t.source = t.target

theorem Apart.symm {t u : Conversion} (h : t.Apart u) : u.Apart t where
  id := h.id.symm
  kinds := by
    intro hs ht
    rw [hs, ht]
    exact h.kinds hs.symm ht.symm

end Conversion

namespace Catalog

/-- Two catalogs in which the same is found, whatever the order of what they hold. -/
structure SameHoldings (c c' : Catalog) : Prop where
  get? : ∀ id, c'.get? id = c.get? id
  find? : ∀ source target, c'.find? source target = c.find? source target
  classify : ∀ destination source, c'.classify destination source = c.classify destination source
  apply : ∀ cache source target v o, c'.apply cache source target v o = c.apply cache source target v o
  available : ∀ source target, (c'.available source target).Perm (c.available source target)

variable {c c' : Catalog} {t : Conversion} {ts us : List Conversion}

/-! ## What is taken -/

theorem Indexed.refusal?_iff_apart (hc : c.Indexed) :
    c.refusal? t = none ↔ t.IsNeeded ∧ ∀ u ∈ c.conversions, u.Apart t := by
  rw [refusal?_eq_none_iff hc]
  constructor
  · intro h
    obtain ⟨hid, hkinds⟩ := h
    refine ⟨fun hne => (hkinds hne).1, fun u hu => ⟨hid u hu, ?_⟩⟩
    intro hs ht
    by_contra hne
    have hmem : u ∈ c.available t.source t.target := mem_available.mpr ⟨hu, hs, ht⟩
    rw [(hkinds (hs ▸ ht ▸ hne)).2] at hmem
    cases hmem
  · intro h
    obtain ⟨hneeded, hapart⟩ := h
    refine ⟨fun u hu => (hapart u hu).id, fun hne => ⟨hneeded hne, ?_⟩⟩
    apply List.eq_nil_iff_forall_not_mem.mpr
    intro u hmem
    obtain ⟨hu, hs, ht⟩ := mem_available.mp hmem
    exact hne (hs ▸ ht ▸ (hapart u hu).kinds hs ht)

theorem Indexed.registerAll (hc : c.Indexed) (h : c.registerAll ts = .ok c') :
    c'.Indexed ∧ c'.conversions = c.conversions ++ ts := by
  induction ts generalizing c with
  | nil =>
    cases h
    exact ⟨hc, (List.append_nil _).symm⟩
  | cons t ts ih =>
    rw [Catalog.registerAll] at h
    cases ht : c.refusal? t with
    | none =>
      rw [register_of_free ht] at h
      obtain ⟨hindexed, hheld⟩ := ih (hc.register (register_of_free ht)) h
      refine ⟨hindexed, ?_⟩
      rw [hheld, append, List.append_assoc, List.singleton_append]
    | some refusal =>
      rw [register_of_refusal ht] at h
      cases h

/-- Conversions are taken one after another exactly when each is needed and any two are apart. -/
theorem Indexed.registerAll_isOk_iff (hc : c.Indexed) (hheld : c.conversions.Pairwise Conversion.Apart) :
    (∃ c', c.registerAll ts = .ok c') ↔ (∀ t ∈ ts, t.IsNeeded) ∧ (c.conversions ++ ts).Pairwise Conversion.Apart := by
  induction ts generalizing c with
  | nil => simp [Catalog.registerAll, hheld]
  | cons t ts ih =>
    rw [Catalog.registerAll, List.forall_mem_cons]
    by_cases ht : c.refusal? t = none
    · have htaken := register_of_free ht
      obtain ⟨hneeded, hapart⟩ := hc.refusal?_iff_apart.mp ht
      have hsnoc : (c.conversions ++ [t]).Pairwise Conversion.Apart := by
        rw [List.pairwise_append]
        refine ⟨hheld, List.pairwise_singleton _ _, ?_⟩
        intro u hu v hv
        rw [List.mem_singleton.mp hv]
        exact hapart u hu
      have hrest := ih (hc.register htaken) hsnoc
      rw [append, List.append_assoc, List.singleton_append] at hrest
      rw [htaken, and_iff_right hneeded]
      exact hrest
    · obtain ⟨refusal, hrefusal⟩ := Option.ne_none_iff_exists'.mp ht
      rw [register_of_refusal hrefusal]
      constructor
      · intro h
        obtain ⟨c', hc'⟩ := h
        cases hc'
      · intro h
        obtain ⟨⟨hneeded, -⟩, hapart⟩ := h
        refine absurd (hc.refusal?_iff_apart.mpr ⟨hneeded, fun u hu => ?_⟩) ht
        exact (List.pairwise_append.mp hapart).2.2 u hu t List.mem_cons_self

/-! ## What is found -/

/-- Of what a catalog holds the order does not count. -/
theorem Indexed.sameHoldings (hc : c.Indexed) (hc' : c'.Indexed) (h : c.conversions.Perm c'.conversions) :
    c.SameHoldings c' := by
  have hget : ∀ id, c'.get? id = c.get? id := by
    intro id
    apply Option.ext
    intro t
    rw [hc'.get?_iff, hc.get?_iff, h.mem_iff]
  have hfind : ∀ source target, c'.find? source target = c.find? source target := by
    intro source target
    apply Option.ext
    intro t
    rw [hc'.find?_iff, hc.find?_iff, h.mem_iff]
  refine ⟨hget, hfind, ?_, ?_, fun source target => (h.filter _).symm⟩
  · intro destination source
    simp only [Catalog.classify, hfind]
  · intro cache source target v o
    simp only [Catalog.apply, hfind]

/-- **The order of registration does not count.** Conversions that an empty catalog takes one after
another are taken in any other order too, and the two catalogs find, say and do the same. -/
theorem registerAll_perm (h : ts.Perm us) (hc : empty.registerAll ts = .ok c) :
    ∃ c', empty.registerAll us = .ok c' ∧ c.SameHoldings c' := by
  have hnone : empty.conversions.Pairwise Conversion.Apart := .nil
  obtain ⟨hneeded, hapart⟩ := (indexed_empty.registerAll_isOk_iff hnone).mp ⟨c, hc⟩
  have hapart' : (empty.conversions ++ us).Pairwise Conversion.Apart :=
    ((h.append_left _).pairwise_iff Conversion.Apart.symm).mp hapart
  obtain ⟨c', hc'⟩ := (indexed_empty.registerAll_isOk_iff hnone).mpr
    ⟨fun t ht => hneeded t (h.mem_iff.mpr ht), hapart'⟩
  obtain ⟨hindexed, hheld⟩ := indexed_empty.registerAll hc
  obtain ⟨hindexed', hheld'⟩ := indexed_empty.registerAll hc'
  refine ⟨c', hc', hindexed.sameHoldings hindexed' ?_⟩
  rw [hheld, hheld']
  exact h.append_left _

/-- All built-in conversions in the opposite order, those from files to files among them. -/
theorem registerAll_perm_reversed :
    builtins.Perm builtins.reverse ∧ empty.registerAll builtins = .ok .builtin ∧
      ∃ c', empty.registerAll builtins.reverse = .ok c' ∧ Catalog.builtin.SameHoldings c' := by
  have h : builtins.Perm builtins.reverse := (List.reverse_perm _).symm
  have hc : empty.registerAll builtins = .ok .builtin := registerAll_builtins
  exact ⟨h, hc, registerAll_perm h hc⟩

end Catalog

end FieldBridge

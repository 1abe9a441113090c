import FieldBridge.Cache.Basic
import FieldBridge.Proofs.Clock

/-!
# The queue inside the cache

The cache keeps its entries twice: by key, and as the order in which they were
stored. In a consistent cache both say the same, so that the cache is given by one
list, the queue, and every operation is an operation on that list.
-/

namespace FieldBridge.Cache

/-- The entries in the order in which they were stored, oldest first. -/
def queue (c : Cache) : List (String × CacheEntry) := c.entries.reverse

/-- The cache with other entries, and all else as it was. -/
def withQueue (c : Cache) (q : List (String × CacheEntry)) : Cache :=
  { c with entries := q.reverse, order := q.map fun p => (p.2.sequence, p.1) }

structure Consistent (c : Cache) : Prop where
  order_eq : c.order = c.queue.map fun p => (p.2.sequence, p.1)
  keys : (c.queue.map (·.1)).Nodup
  ascending : c.queue.Pairwise fun p q => p.2.sequence < q.2.sequence
  below : ∀ p ∈ c.queue, p.2.sequence < c.nextSequence

section
variable (c : Cache) (q r : List (String × CacheEntry))

@[simp] theorem queue_withQueue : (c.withQueue q).queue = q := List.reverse_reverse q

@[simp] theorem withQueue_withQueue : (c.withQueue q).withQueue r = c.withQueue r := rfl

theorem size_eq : c.size = c.queue.length := (List.length_reverse).symm

end

variable {c : Cache}

theorem Consistent.eq_withQueue (hc : c.Consistent) : c = c.withQueue c.queue := by
  have he : c.queue.reverse = c.entries := List.reverse_reverse _
  rw [withQueue, he, ← hc.order_eq]

theorem Consistent.congr (hc : c.Consistent) {d : Cache} (he : d.entries = c.entries) (ho : d.order = c.order)
    (hn : d.nextSequence = c.nextSequence) : d.Consistent := by
  obtain ⟨entries, order, next, _, _, _, _⟩ := d
  cases he
  cases ho
  cases hn
  exact ⟨hc.order_eq, hc.keys, hc.ascending, hc.below⟩

theorem Consistent.sublist (hc : c.Consistent) {q : List (String × CacheEntry)} (h : q.Sublist c.queue) :
    (c.withQueue q).Consistent where
  order_eq := by rw [queue_withQueue]; rfl
  keys := by rw [queue_withQueue]; exact hc.keys.sublist (h.map _)
  ascending := by rw [queue_withQueue]; exact hc.ascending.sublist h
  below p hp := by rw [queue_withQueue] at hp; exact hc.below p (h.subset hp)

/-! ## Looking up by key -/

theorem mem_queue_of_find? {key : String} {e : CacheEntry} (h : c.find? key = some e) : (key, e) ∈ c.queue := by
  obtain ⟨before, after, hes, -⟩ := List.lookup_eq_some_iff.mp h
  rw [queue, List.mem_reverse, hes]
  exact List.mem_append_right _ List.mem_cons_self

theorem find?_eq_none_iff {key : String} : c.find? key = none ↔ ∀ p ∈ c.queue, p.1 ≠ key := by
  rw [find?, List.lookup_eq_none_iff, queue]
  refine forall_congr' fun p => ?_
  rw [List.mem_reverse, bne_iff_ne, ne_comm]

theorem Consistent.eq_of_key (hc : c.Consistent) {p q : String × CacheEntry} (hp : p ∈ c.queue) (hq : q ∈ c.queue)
    (h : p.1 = q.1) : p = q :=
  List.inj_on_of_nodup_map hc.keys hp hq h

theorem Consistent.eq_of_sequence (hc : c.Consistent) {p q : String × CacheEntry} (hp : p ∈ c.queue)
    (hq : q ∈ c.queue) (h : p.2.sequence = q.2.sequence) : p = q := by
  have hn : (c.queue.map (·.2.sequence)).Nodup := List.pairwise_map.mpr (hc.ascending.imp Nat.ne_of_lt)
  exact List.inj_on_of_nodup_map hn hp hq h

theorem Consistent.find?_eq_some_iff (hc : c.Consistent) {key : String} {e : CacheEntry} :
    c.find? key = some e ↔ (key, e) ∈ c.queue := by
  refine ⟨mem_queue_of_find?, fun hm => ?_⟩
  cases hf : c.find? key with
  | none => exact absurd rfl (find?_eq_none_iff.mp hf _ hm)
  | some f =>
    have := hc.eq_of_key (mem_queue_of_find? hf) hm rfl
    rw [(Prod.mk.inj this).2]

theorem Consistent.find?_eq (hc : c.Consistent) (key : String) :
    c.find? key = (c.queue.find? (·.1 == key)).map (·.2) := by
  cases hq : c.queue.find? (·.1 == key) with
  | none =>
    refine find?_eq_none_iff.mpr fun p hp => ?_
    simpa using List.find?_eq_none.mp hq p hp
  | some p =>
    have hkey : p.1 = key := by simpa using List.find?_some hq
    exact hkey ▸ hc.find?_eq_some_iff.mpr (List.mem_of_find?_eq_some hq)

/-! ## Removing -/

theorem Consistent.remove_eq (hc : c.Consistent) (key : String) :
    c.remove key = c.withQueue (c.queue.filter (·.1 != key)) := by
  unfold remove
  cases hf : c.find? key with
  | none =>
    have hall : c.queue.filter (·.1 != key) = c.queue :=
      List.filter_eq_self.mpr fun p hp => by simpa using find?_eq_none_iff.mp hf p hp
    rw [hall]
    exact hc.eq_withQueue
  | some e =>
    have hm := mem_queue_of_find? hf
    -- a sequence number belongs to one key only, so both halves lose the same entry
    have hsame : ∀ p ∈ c.queue, (p.2.sequence != e.sequence) = (p.1 != key) := by
      intro p hp
      rw [Bool.eq_iff_iff, bne_iff_ne, bne_iff_ne, not_iff_not]
      exact ⟨fun h => congrArg Prod.fst (hc.eq_of_sequence hp hm h),
        fun h => congrArg (·.2.sequence) (hc.eq_of_key hp hm h)⟩
    have horder : c.order.filter (·.1 != e.sequence) =
        (c.queue.filter (·.1 != key)).map fun p => (p.2.sequence, p.1) := by
      rw [hc.order_eq, List.filter_map, ← List.filter_congr hsame]
      rfl
    rw [withQueue, ← horder, ← List.filter_reverse, queue, List.reverse_reverse]

theorem Consistent.remove (hc : c.Consistent) (key : String) : (c.remove key).Consistent := by
  rw [hc.remove_eq]
  exact hc.sublist List.filter_sublist

theorem Consistent.evict_eq (hc : c.Consistent) : c.evict = c.withQueue c.queue.tail := by
  have ho := hc.order_eq
  cases hq : c.queue with
  | nil =>
    rw [hq] at ho
    have hself := hc.eq_withQueue
    rw [hq] at hself
    rw [evict, ho]
    exact hself
  | cons p q =>
    rw [hq] at ho
    have hk := hc.keys
    rw [hq, List.map_cons, List.nodup_cons] at hk
    have hrest : q.filter (·.1 != p.1) = q := by
      refine List.filter_eq_self.mpr fun r hr => bne_iff_ne.mpr fun h => hk.1 ?_
      exact h ▸ List.mem_map_of_mem hr
    have hentries : c.entries.filter (·.1 != p.1) = q.reverse := by
      have he : c.entries = (p :: q).reverse := by rw [← hq, queue, List.reverse_reverse]
      rw [he, List.filter_reverse, List.filter_cons_of_neg (by simp), hrest]
    rw [evict, ho, List.map_cons]
    dsimp only
    rw [hentries]
    rfl

theorem Consistent.evictTo_go_eq (hc : c.Consistent) (bound n : Nat) (hn : c.size ≤ bound + n) :
    evictTo.go bound n c = c.withQueue (c.queue.drop (c.size - bound)) := by
  induction n generalizing c with
  | zero =>
    rw [evictTo.go, Nat.sub_eq_zero_of_le (by simpa using hn), List.drop_zero]
    exact hc.eq_withQueue
  | succ n ih =>
    rw [evictTo.go]
    split
    case isTrue h =>
      rw [Nat.sub_eq_zero_of_le h, List.drop_zero]
      exact hc.eq_withQueue
    case isFalse h =>
      have hsize : (c.withQueue c.queue.tail).size = c.size - 1 := by
        rw [size_eq, queue_withQueue, List.length_tail, ← size_eq]
      rw [hc.evict_eq, ih (hc.sublist (List.tail_sublist _)) (by omega), hsize, queue_withQueue, withQueue_withQueue,
        List.drop_tail, show c.size - 1 - bound + 1 = c.size - bound by omega]

theorem Consistent.evictTo_eq (hc : c.Consistent) (bound : Nat) :
    c.evictTo bound = c.withQueue (c.queue.drop (c.size - bound)) := by
  refine hc.evictTo_go_eq bound _ ?_
  rw [hc.order_eq, List.length_map, ← size_eq]
  omega

theorem Consistent.removeAll_eq (hc : c.Consistent) (keys : List String) :
    c.removeAll keys = c.withQueue (c.queue.filter fun p => !keys.contains p.1) := by
  induction keys generalizing c with
  | nil =>
    rw [List.filter_eq_self.mpr (by simp)]
    exact hc.eq_withQueue
  | cons key keys ih =>
    have hr := hc.remove_eq key
    rw [removeAll, List.foldl_cons, ← removeAll, hr, ih (hc.sublist (List.filter_sublist)), queue_withQueue,
      withQueue_withQueue, List.filter_filter]
    congr 2
    funext p
    rw [List.contains_cons, Bool.not_or, Bool.and_comm, bne]

theorem Consistent.invalidateAll_eq (hc : c.Consistent) (id : String) : c.invalidateAll id =
    (c.queue.countP (·.2.conversion == id), c.withQueue (c.queue.filter fun e => !(e.2.conversion == id))) := by
  rw [invalidateAll]
  refine Prod.ext ?_ ?_
  · rw [List.length_map, List.countP_eq_length_filter, queue, List.filter_reverse, List.length_reverse]
  · dsimp only
    rw [hc.removeAll_eq]
    congr 1
    refine List.filter_congr fun e he => ?_
    rw [Bool.not_inj_iff, Bool.eq_iff_iff, List.contains_iff_mem, List.mem_map]
    constructor
    · rintro ⟨f, hf, hkey⟩
      rw [List.mem_filter] at hf
      exact hc.eq_of_key (List.mem_reverse.mpr hf.1) he hkey ▸ hf.2
    · exact fun hp => ⟨e, List.mem_filter.mpr ⟨List.mem_reverse.mp he, hp⟩, rfl⟩

/-- Those stay that have not expired when they are looked at. -/
theorem Consistent.purgeExpired_eq (hc : c.Consistent) :
    let kept := c.clock.pick (fun now (e : String × CacheEntry) => !e.2.expired now) c.queue
    c.purgeExpired = (c.queue.length - kept.length, c.look.withQueue kept) := by
  intro kept
  have hcount := Clock.length_pick_add (fun now (e : String × CacheEntry) => e.2.expired now) c.clock c.queue
  have hlook : c.look.Consistent := hc.congr rfl rfl rfl
  rw [purgeExpired, ← queue]
  refine Prod.ext ?_ ?_
  · dsimp only
    rw [List.length_map, ← hcount, Nat.add_sub_cancel]
  · dsimp only
    rw [hlook.removeAll_eq]
    exact congrArg _ (Clock.filter_not_picked _ c.clock hc.keys)

/-! ## Storing -/

theorem Consistent.store (hc : c.Consistent) {key : String} (hk : ∀ p ∈ c.queue, p.1 ≠ key) (id : String) (v : Json)
    (ttl : Nat) : (c.store key id v ttl).Consistent where
  order_eq := by simp [Cache.store, queue, hc.order_eq]
  keys := by
    simp only [Cache.store, queue, List.reverse_cons, List.map_append, List.map_cons, List.map_nil]
    refine List.nodup_append.mpr ⟨hc.keys, List.nodup_singleton _, ?_⟩
    simp only [List.mem_map, List.mem_singleton]
    rintro _ ⟨p, hp, rfl⟩ _ rfl
    exact hk p hp
  ascending := by
    simp only [Cache.store, queue, List.reverse_cons]
    refine List.pairwise_append.mpr ⟨hc.ascending, List.pairwise_singleton _ _, fun p hp q hq => ?_⟩
    rw [List.mem_singleton.mp hq]
    exact hc.below p hp
  below p hp := by
    simp only [Cache.store, queue, List.reverse_cons, List.mem_append, List.mem_singleton] at hp ⊢
    rcases hp with hp | rfl
    · exact Nat.lt_succ_of_lt (hc.below p hp)
    · exact Nat.lt_succ_self _

theorem queue_store (key id : String) (v : Json) (ttl : Nat) :
    (c.store key id v ttl).queue = c.queue ++ [(key, ⟨v, c.clock.now, ttl, id, c.nextSequence⟩)] := by
  simp [Cache.store, queue]

/-! ## What a lookup finds afterwards -/

theorem Consistent.find?_withQueue (hc : c.Consistent) {q : List (String × CacheEntry)} (hq : q.Sublist c.queue)
    (key : String) : (c.withQueue q).find? key = (q.find? (·.1 == key)).map (·.2) := by
  rw [(hc.sublist hq).find?_eq, queue_withQueue]

theorem Consistent.find?_remove (hc : c.Consistent) {key key' : String} (h : key' ≠ key) :
    (c.remove key).find? key' = c.find? key' := by
  rw [hc.remove_eq, hc.find?_withQueue List.filter_sublist, hc.find?_eq, List.find?_filter]
  congr 2
  funext p
  by_cases hp : p.1 = key'
  · simp [hp, h]
  · simp [hp]

theorem Consistent.find?_evict (hc : c.Consistent) (key : String) :
    c.evict.find? key = if c.order.head?.map (·.2) = some key then none else c.find? key := by
  rw [hc.evict_eq, hc.find?_withQueue (List.tail_sublist _), hc.find?_eq, hc.order_eq]
  have hk := hc.keys
  cases hq : c.queue with
  | nil => simp
  | cons p q =>
    rw [hq, List.map_cons, List.nodup_cons] at hk
    simp only [List.tail_cons, List.map_cons, List.head?_cons, Option.map_some, Option.some.injEq]
    split
    case isTrue h =>
      have hnone : q.find? (·.1 == key) = none := by
        rw [List.find?_eq_none]
        intro r hr he
        exact hk.1 (List.mem_map.mpr ⟨r, hr, (beq_iff_eq.mp he).trans h.symm⟩)
      rw [hnone, Option.map_none]
    case isFalse h => rw [List.find?_cons_of_neg (by simpa using h)]

@[simp] theorem find?_look (key : String) : c.look.find? key = c.find? key := rfl

theorem find?_store {key key' : String} (h : key' ≠ key) (id : String) (v : Json) (ttl : Nat) :
    (c.store key id v ttl).find? key' = c.find? key' := by
  rw [find?, store, List.lookup_cons, beq_eq_false_iff_ne.mpr h]
  rfl

/-! ## What the loops keep -/

section
variable {P : Cache → Prop}

theorem evictTo_keeps (h : ∀ d, P d → P d.evict) (hc : P c) (bound : Nat) : P (c.evictTo bound) := by
  rw [evictTo]
  generalize c.order.length = n
  induction n generalizing c with
  | zero => exact hc
  | succ n ih =>
    rw [evictTo.go]
    split
    · exact hc
    · exact ih (h c hc)

theorem removeAll_keeps (h : ∀ d key, P d → P (d.remove key)) (hc : P c) (keys : List String) :
    P (c.removeAll keys) := by
  induction keys generalizing c with
  | nil => exact hc
  | cons key keys ih => exact ih (h c key hc)

end

/-! ## What is kept beside the entries

Caches that are equal once they are cleared differ in nothing but their entries. -/

theorem clock_of_clearEntries {d : Cache} (h : d.clearEntries = c.clearEntries) : d.clock = c.clock :=
  (congrArg clock h :)

theorem settings_of_clearEntries {d : Cache} (h : d.clearEntries = c.clearEntries) : d.settings = c.settings :=
  (congrArg settings h :)

section
variable (c : Cache)

theorem clearEntries_remove (key : String) : (c.remove key).clearEntries = c.clearEntries := by
  unfold remove
  split <;> rfl

theorem clearEntries_evict : c.evict.clearEntries = c.clearEntries := by
  unfold evict
  split <;> rfl

theorem clearEntries_evictTo (bound : Nat) : (c.evictTo bound).clearEntries = c.clearEntries :=
  evictTo_keeps (P := fun d => d.clearEntries = c.clearEntries) (fun d hd => (clearEntries_evict d).trans hd) rfl bound

theorem clearEntries_removeAll (keys : List String) : (c.removeAll keys).clearEntries = c.clearEntries :=
  removeAll_keeps (P := fun d => d.clearEntries = c.clearEntries)
    (fun d key hd => (clearEntries_remove d key).trans hd) rfl keys

/-! ## What time it takes -/

theorem precedes_of_clearEntries {c d : Cache} (h : d.clearEntries = c.clearEntries) : c.clock.Precedes d.clock :=
  clock_of_clearEntries h ▸ .refl _

theorem clock_room (key : String) (bound : Nat) : ((c.remove key).evictTo bound).clock = c.clock :=
  clock_of_clearEntries ((clearEntries_evictTo _ bound).trans (c.clearEntries_remove key))

theorem precedes_get (id : String) (value : Json) (options : Options) :
    c.clock.Precedes (c.get id value options).2.clock := by
  unfold get
  split
  · exact .refl _
  · dsimp only
    split
    · exact .refl _
    · split
      · exact c.clock.precedes_look.trans (precedes_of_clearEntries (c.look.clearEntries_remove _))
      · exact c.clock.precedes_look

theorem precedes_set (id : String) (value : Json) (options : Options) (result : Json) (ttl : Option Nat) :
    c.clock.Precedes (c.set id value options result ttl).clock := by
  unfold set
  split
  · exact .refl _
  · rw [store, look, clock_room]
    exact c.clock.precedes_look

/-- What follows from a lookup takes time too. -/
theorem get_precedes_getOrCompute {ε : Type} (id : String) (value : Json) (options : Options)
    (compute : Unit → Except ε Json) :
    (c.get id value options).2.clock.Precedes (c.getOrCompute id value options compute).2.clock := by
  unfold getOrCompute
  generalize c.get id value options = got
  obtain ⟨found, after⟩ := got
  cases found with
  | some stored => exact .refl _
  | none =>
    dsimp only
    cases compute () with
    | error e => exact .refl _
    | ok result => exact after.precedes_set id value options result none

theorem precedes_getOrCompute {ε : Type} (id : String) (value : Json) (options : Options)
    (compute : Unit → Except ε Json) : c.clock.Precedes (c.getOrCompute id value options compute).2.clock :=
  (c.precedes_get id value options).trans (c.get_precedes_getOrCompute id value options compute)

end

/-! ## What is left of the entries -/

section
variable (c : Cache)

theorem entries_remove (key : String) : (c.remove key).entries ⊆ c.entries := by
  unfold remove
  split
  · exact List.Subset.refl _
  · exact List.filter_subset_self _

theorem entries_evict : c.evict.entries ⊆ c.entries := by
  unfold evict
  split
  · exact List.Subset.refl _
  · exact List.filter_subset_self _

theorem entries_evictTo (bound : Nat) : (c.evictTo bound).entries ⊆ c.entries :=
  evictTo_keeps (P := fun d => d.entries ⊆ c.entries) (fun d hd => List.Subset.trans (entries_evict d) hd)
    (List.Subset.refl _) bound

theorem entries_removeAll (keys : List String) : (c.removeAll keys).entries ⊆ c.entries :=
  removeAll_keeps (P := fun d => d.entries ⊆ c.entries)
    (fun d key hd => List.Subset.trans (entries_remove d key) hd) (List.Subset.refl _) keys

theorem entries_get (id : String) (value : Json) (options : Options) :
    (c.get id value options).2.entries ⊆ c.entries := by
  unfold get
  split
  · exact List.Subset.refl _
  · dsimp only
    split
    · exact List.Subset.refl _
    · split
      · exact entries_remove c.look _
      · exact List.Subset.refl _

theorem mem_entries_set {id : String} {value : Json} {options : Options} {result : Json} {ttl : Option Nat}
    {p : String × CacheEntry} (hp : p ∈ (c.set id value options result ttl).entries) :
    p ∈ c.entries ∨ p.1 = cacheKey id value options := by
  unfold set at hp
  split at hp
  · exact .inl hp
  · rcases List.mem_cons.mp hp with rfl | hp
    · exact .inr rfl
    · exact .inl (entries_remove _ _ (entries_evictTo _ _ hp))

theorem mem_entries_getOrCompute {ε : Type} {id : String} {value : Json} {options : Options}
    {compute : Unit → Except ε Json} {p : String × CacheEntry}
    (hp : p ∈ (c.getOrCompute id value options compute).2.entries) :
    p ∈ c.entries ∨ (compute ()).isOk = true ∧ p.1 = cacheKey id value options := by
  have hget := entries_get c id value options
  unfold getOrCompute at hp
  generalize c.get id value options = got at hget hp
  obtain ⟨found, after⟩ := got
  cases found with
  | some stored => exact .inl (hget hp)
  | none =>
    cases hcompute : compute () with
    | error e =>
      simp only [hcompute] at hp
      exact .inl (hget hp)
    | ok result =>
      simp only [hcompute] at hp
      rcases mem_entries_set _ hp with hp | hp
      · exact .inl (hget hp)
      · exact .inr ⟨rfl, hp⟩

end

end FieldBridge.Cache

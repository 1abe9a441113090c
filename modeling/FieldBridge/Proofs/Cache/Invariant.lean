import FieldBridge.Proofs.Cache.Queue
import Mathlib.Logic.Function.Iterate

/-!
# What every cache keeps

The entries by key and the order in which they leave say the same, and there is room
for what is held. The loops that evict rest on this: while too many entries are left,
the order has one to give up, and each round gives up exactly one.
-/

namespace FieldBridge

namespace Cache

structure WellKept (c : Cache) : Prop where
  capacity : 1 ≤ c.settings.capacity
  bounded : c.size ≤ c.settings.capacity
  keys : (c.entries.map (·.1)).Nodup
  ascending : c.order.Pairwise fun p q => p.1 < q.1
  order_iff : ∀ sequence key, (sequence, key) ∈ c.order ↔ ∃ e, c.find? key = some e ∧ e.sequence = sequence
  below : ∀ key e, c.find? key = some e → e.sequence < c.nextSequence
  distinct : ∀ k l e f, c.find? k = some e → c.find? l = some f → e.sequence = f.sequence → k = l
  keyed : ∀ key e, c.find? key = some e → ∃ v o, key = cacheKey e.conversion v o

/-- The loop that evicts until at most `bound` entries are left takes this many rounds. -/
structure EvictsIn (rounds : Nat) (c : Cache) (bound : Nat) : Prop where
  result : c.evictTo bound = evict^[rounds] c
  needed : ∀ n < rounds, bound < (evict^[n] c).size
  queued : ∀ n < rounds, (evict^[n] c).order ≠ []
  taken : ∀ n < rounds, (evict^[n + 1] c).size + 1 = (evict^[n] c).size
  met : (c.evictTo bound).size ≤ bound

structure EvictsAsNeeded (c : Cache) : Prop where
  storing : ∀ id v o result ttl, c.settings.enabled = true → ∃ rounds ≤ 1,
    EvictsIn rounds (c.remove (cacheKey id v o)) (c.settings.capacity - 1) ∧
      c.set id v o result ttl = (evict^[rounds] (c.remove (cacheKey id v o))).look.store (cacheKey id v o) id
        result (ttl.getD c.settings.ttl)
  kept : ∀ id v o result ttl, ∃ evicted : Option String, ∀ key, key ≠ cacheKey id v o →
    (c.set id v o result ttl).find? key = if evicted = some key then none else c.find? key
  shrinking : ∀ u s d, c.updateSettings u = (.ok s, d) → s = c.settings.apply u ∧ ∃ rounds,
    EvictsIn rounds { c with settings := s } s.capacity ∧ d = evict^[rounds] { c with settings := s }

variable {c : Cache}

/-! ## Rounds of eviction -/

theorem Consistent.iterate_evict (hc : c.Consistent) (n : Nat) :
    evict^[n] c = c.withQueue (c.queue.drop n) := by
  induction n with
  | zero => exact hc.eq_withQueue
  | succ n ih =>
    have hn : (c.withQueue (c.queue.drop n)).Consistent := hc.sublist (List.drop_sublist _ _)
    rw [Function.iterate_succ_apply', ih, hn.evict_eq, queue_withQueue, withQueue_withQueue, List.tail_drop]

theorem Consistent.size_iterate_evict (hc : c.Consistent) (n : Nat) : (evict^[n] c).size = c.size - n := by
  rw [hc.iterate_evict, size_eq, queue_withQueue, List.length_drop, ← size_eq]

theorem Consistent.order_iterate_evict (hc : c.Consistent) (n : Nat) :
    (evict^[n] c).order.length = c.size - n := by
  rw [hc.iterate_evict, withQueue, List.length_map, List.length_drop, ← size_eq]

theorem Consistent.evictsIn (hc : c.Consistent) (bound : Nat) : EvictsIn (c.size - bound) c bound where
  result := by rw [hc.evictTo_eq, hc.iterate_evict]
  needed n hn := by
    rw [hc.size_iterate_evict]
    omega
  queued n hn := by
    rw [← List.length_pos_iff, hc.order_iterate_evict]
    omega
  taken n hn := by
    rw [hc.size_iterate_evict, hc.size_iterate_evict]
    omega
  met := by
    rw [hc.evictTo_eq, ← hc.iterate_evict, hc.size_iterate_evict]
    omega

end Cache

/-! ## What a refined queue gives -/

namespace Refines
variable {c : Cache} {q : Queue}

theorem exists_item (h : Refines c q) {key : String} {e : CacheEntry} (he : c.find? key = some e) :
    ∃ i ∈ q.items, Stands (key, e) i :=
  exists_of_mem h.items (Cache.mem_queue_of_find? he)

theorem wellKept (h : Refines c q) : c.WellKept where
  capacity := by rw [h.settings]; exact h.positive
  bounded := by rw [h.settings, h.length_eq]; exact h.bounded
  keys := by
    have hk := h.consistent.keys
    rwa [Cache.queue, List.map_reverse, List.nodup_reverse] at hk
  ascending := by
    rw [h.consistent.order_eq, List.pairwise_map]
    exact h.consistent.ascending
  order_iff sequence key := by
    rw [h.consistent.order_eq, List.mem_map]
    constructor
    · rintro ⟨p, hp, hpair⟩
      obtain ⟨rfl, rfl⟩ := Prod.mk.inj hpair
      exact ⟨p.2, h.consistent.find?_eq_some_iff.mpr hp, rfl⟩
    · rintro ⟨e, he, rfl⟩
      exact ⟨(key, e), Cache.mem_queue_of_find? he, rfl⟩
  below key e he := h.consistent.below _ (Cache.mem_queue_of_find? he)
  distinct k l e f he hf hs :=
    congrArg Prod.fst
      (h.consistent.eq_of_sequence (Cache.mem_queue_of_find? he) (Cache.mem_queue_of_find? hf) hs)
  keyed key e he := by
    obtain ⟨i, -, hi⟩ := h.exists_item he
    refine ⟨i.call.value, i.call.options, ?_⟩
    rw [show e.conversion = i.call.id from hi.conversion]
    exact hi.key

theorem rounds_le_one (h : Refines c q) (key : String) :
    (c.remove key).size - (c.settings.capacity - 1) ≤ 1 := by
  have hsize : (c.remove key).size ≤ c.size := by
    rw [h.consistent.remove_eq, Cache.size_eq, Cache.queue_withQueue, Cache.size_eq]
    exact List.length_filter_le _ _
  have hroom := h.wellKept.bounded
  omega

theorem set_eq (h : Refines c q) (id : String) (v : Json) (o : Options) (result : Json) (ttl : Option Nat)
    (hon : c.settings.enabled = true) : ∃ rounds ≤ 1,
      Cache.EvictsIn rounds (c.remove (cacheKey id v o)) (c.settings.capacity - 1) ∧
        c.set id v o result ttl = (Cache.evict^[rounds] (c.remove (cacheKey id v o))).look.store (cacheKey id v o)
          id result (ttl.getD c.settings.ttl) := by
  have hloop := (h.consistent.remove (cacheKey id v o)).evictsIn (c.settings.capacity - 1)
  refine ⟨_, h.rounds_le_one _, hloop, ?_⟩
  rw [Cache.set, hon, ← hloop.result]
  rfl

/-- Apart from the key that is stored, at most one key is lost. -/
theorem find?_set (h : Refines c q) (id : String) (v : Json) (o : Options) (result : Json) (ttl : Option Nat) :
    ∃ evicted : Option String, ∀ key, key ≠ cacheKey id v o →
      (c.set id v o result ttl).find? key = if evicted = some key then none else c.find? key := by
  cases hon : c.settings.enabled with
  | false => exact ⟨none, fun key _ => by simp [Cache.set, hon]⟩
  | true =>
    obtain ⟨rounds, hrounds, -, hset⟩ := h.set_eq id v o result ttl hon
    rw [hset]
    rcases Nat.le_one_iff_eq_zero_or_eq_one.mp hrounds with rfl | rfl
    · refine ⟨none, fun key hkey => ?_⟩
      rw [Cache.find?_store hkey, Cache.find?_look, Function.iterate_zero_apply, h.consistent.find?_remove hkey]
      simp
    · refine ⟨(c.remove (cacheKey id v o)).order.head?.map (·.2), fun key hkey => ?_⟩
      rw [Cache.find?_store hkey, Cache.find?_look, Function.iterate_one, (h.consistent.remove _).find?_evict,
        h.consistent.find?_remove hkey]

theorem updateSettings_eq (h : Refines c q) {u : SettingsUpdate} {s : CacheSettings} {d : Cache}
    (hd : c.updateSettings u = (.ok s, d)) : s = c.settings.apply u ∧ ∃ rounds,
      Cache.EvictsIn rounds { c with settings := s } s.capacity ∧ d = Cache.evict^[rounds] { c with settings := s } := by
  rw [Cache.updateSettings] at hd
  split at hd
  case isTrue => cases hd
  case isFalse =>
    obtain ⟨hs, rfl⟩ := Prod.mk.inj hd
    obtain rfl := Except.ok.inj hs
    have hc : Cache.Consistent { c with settings := c.settings.apply u } := h.consistent.congr rfl rfl rfl
    have hloop := hc.evictsIn (c.settings.apply u).capacity
    exact ⟨rfl, _, hloop, hloop.result⟩

theorem evictsAsNeeded (h : Refines c q) : c.EvictsAsNeeded where
  storing := h.set_eq
  kept := h.find?_set
  shrinking _ _ _ hd := h.updateSettings_eq hd

end Refines

variable {ε : Type}

/-- **Every cache is well kept.** Whatever was asked of a new cache, both halves agree within the
capacity. Its loops end because they have made room, never because there is nothing to evict: a
result that is stored takes one round at most, and so costs one other key at most. -/
theorem cache_wellKept {settings : CacheSettings} (h : 0 < settings.capacity) (clock : Clock)
    (requests : List (Request ε)) :
    ∃ c, Cache.withSettings settings clock = .ok c ∧
      (answers Cache.answer c requests).2.WellKept ∧ (answers Cache.answer c requests).2.EvictsAsNeeded := by
  have hlast := ((Refines.empty h clock).answers requests).2
  exact ⟨.empty settings clock, if_neg (Nat.ne_of_gt h), hlast.wellKept, hlast.evictsAsNeeded⟩

/-- A full cache in which a result is stored anew, another one pushes the oldest out, and the
capacity is refused and then lowered. -/
theorem cache_wellKept_shrunk :
    let settings : CacheSettings := ⟨2, 1000, true⟩
    let clock : Clock := { pace := fun _ => 300 }
    let call (s : String) : Call := ⟨"upper", .string s, .empty⟩
    let requests : List (Request Failure) :=
      [.set (call "a") (.string "A") none, .set (call "b") (.string "B") none, .set (call "a") (.string "A") none,
        .getOrCompute (call "c") (.ok (.string "C")), .updateSettings { capacity := some 0 },
        .updateSettings { capacity := some 1 }, .invalidate (call "b")]
    0 < settings.capacity ∧ ∃ c, Cache.withSettings settings clock = .ok c ∧
      (answers Cache.answer c requests).2.WellKept ∧ (answers Cache.answer c requests).2.EvictsAsNeeded :=
  ⟨by decide, cache_wellKept (by decide) _ _⟩

end FieldBridge

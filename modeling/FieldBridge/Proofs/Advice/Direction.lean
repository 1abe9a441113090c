import FieldBridge.Proofs.Advice.Lifetime

/-!
# Which way advice moves

A smaller capacity is advised only where it is smaller. A larger capacity and a longer lifetime
are advised without such a test: half of one entry is none, nothing doubled is nothing, and 64
bits hold nothing beyond their largest number. Everywhere else they are larger and longer.
-/

namespace FieldBridge

open Decimal

theorem lt_halfMore_iff {n : Nat} (h : n < 2 ^ 50) : n < halfMore n ↔ 2 ≤ n := by
  rw [halfMore_eq h]
  omega

theorem lt_double64_iff (settings : CacheSettings) :
    Nanoseconds.wholeMilliseconds settings.ttl < double64 settings.ttlMilliseconds ↔
      0 < Nanoseconds.wholeMilliseconds settings.ttl ∧ Nanoseconds.wholeMilliseconds settings.ttl < 2 ^ 64 - 1 := by
  unfold double64 CacheSettings.ttlMilliseconds
  omega

/-- The hit rate cannot be low and high at once. -/
theorem not_larger_and_smaller {stats : CacheStats} {settings : CacheSettings} {a b : Advice}
    (h : stats.largerCapacity? settings = some a) : stats.smallerCapacity? settings ≠ some b := by
  intro hsmaller
  have hlow := (CacheStats.largerCapacity?_spec h).1
  have hhigh := (CacheStats.smallerCapacity?_spec hsmaller).1
  have hhalf : (0.5 : Float).toModel.unpack = .finite .positive 0x10000000000000 (-53) (by decide) := by rfl
  have hmost : (0.9 : Float).toModel.unpack = .finite .positive 0x1CCCCCCCCCCCCD (-53) (by decide) := by rfl
  exact not_lt_of_lt hhalf hmost (.inr ⟨rfl, by decide⟩) hlow hhigh

theorem exists_larger (results : List BenchmarkResult) {stats : CacheStats} {settings : CacheSettings}
    (hl : stats.lookups ≠ 0) (h : (stats.largerCapacity? settings).isSome = true) :
    ∃ a ∈ (analyze results stats settings).advice, a.kind = .increaseCapacity := by
  obtain ⟨a, ha⟩ := Option.isSome_iff_exists.mp h
  refine ⟨a, mem_analyze_advice_of_mem hl (CacheStats.mem_advice_iff.mpr (.inl ha)), ?_⟩
  obtain ⟨-, _, rfl⟩ := CacheStats.largerCapacity?_spec ha
  rfl

/-- **Which way advice on the cache moves.** A larger capacity that is advised is larger exactly
from two entries on, and a longer lifetime has more milliseconds exactly where there are any whole
ones and they can be doubled at all in 64 bits. A smaller capacity is always smaller and never 0,
and it is never advised together with a larger one. -/
theorem advice_direction (results : List BenchmarkResult) (stats : CacheStats) {settings : CacheSettings}
    (hsmall : settings.capacity < 2 ^ 50) :
    let advice := (analyze results stats settings).advice
    (∀ a ∈ advice, a.kind = .increaseCapacity →
      ∃ n, a.suggested = some n ∧ (settings.capacity < n ↔ 2 ≤ settings.capacity)) ∧
    (∀ a ∈ advice, a.kind = .increaseTtl →
      ∃ n, a.suggested = some n ∧ (Nanoseconds.wholeMilliseconds settings.ttl < n ↔
        0 < Nanoseconds.wholeMilliseconds settings.ttl ∧
          Nanoseconds.wholeMilliseconds settings.ttl < 2 ^ 64 - 1)) ∧
    (∀ a ∈ advice, a.kind = .decreaseCapacity →
      ∃ n, a.suggested = some n ∧ 1 ≤ n ∧ n < settings.capacity) ∧
    ¬((∃ a ∈ advice, a.kind = .increaseCapacity) ∧ ∃ a ∈ advice, a.kind = .decreaseCapacity) := by
  intro advice
  refine ⟨?_, ?_, ?_, ?_⟩
  · intro a ha hk
    exact ⟨_, suggested_increase ha hk, lt_halfMore_iff hsmall⟩
  · intro a ha hk
    exact ⟨_, (suggested_lifetime ha hk).2, lt_double64_iff settings⟩
  · intro a ha hk
    obtain ⟨-, hless, -⟩ := CacheStats.smallerCapacity?_spec ((source_of_mem ha).2.2 hk)
    exact ⟨_, suggested_decrease ha hk, by omega, hless⟩
  · rintro ⟨⟨a, ha, hlarger⟩, b, hb, hsmaller⟩
    exact not_larger_and_smaller ((source_of_mem ha).1 hlarger) ((source_of_mem hb).2.2 hsmaller)

/-- A full cache of two entries, whose lookups all missed. -/
theorem advice_direction_full :
    let shout (v : Json) : Request Failure := .getOrCompute ⟨"shout", v, .empty⟩ (.ok (.string "loud"))
    let requests := [shout (.string "a"), shout (.string "b")]
    let cache : Cache := (answers Cache.answer (.empty ⟨2, 1000, true⟩) requests).2
    cache.settings.capacity < 2 ^ 50 ∧ ∃ a ∈ (analyze [] cache.stats cache.settings).advice,
      a.kind = .increaseCapacity ∧ ∃ n, a.suggested = some n ∧ cache.settings.capacity < n := by
  intro shout requests cache
  have hsmall : cache.settings.capacity < 2 ^ 50 := by decide
  have hlookups : cache.stats.lookups ≠ 0 := by decide +kernel
  have hlarger : (cache.stats.largerCapacity? cache.settings).isSome = true := by decide +kernel
  obtain ⟨a, ha, hk⟩ := exists_larger [] hlookups hlarger
  obtain ⟨n, hn, hless⟩ := (advice_direction [] cache.stats hsmall).1 a ha hk
  exact ⟨hsmall, a, ha, hk, n, hn, hless.mpr (by decide)⟩

/-- It is not so that a larger capacity that is advised is always larger: one entry stays one entry. -/
theorem not_always_larger : ¬∀ (results : List BenchmarkResult) (stats : CacheStats) (settings : CacheSettings),
    stats.lookups ≠ 0 → 1 ≤ settings.capacity → settings.capacity < 2 ^ 50 →
      ∀ a ∈ (analyze results stats settings).advice, a.kind = .increaseCapacity →
        ∃ n, a.suggested = some n ∧ settings.capacity < n := by
  intro hclaim
  let requests : List (Request Failure) := [.getOrCompute ⟨"shout", .string "a", .empty⟩ (.ok (.string "a!"))]
  let cache : Cache := (answers Cache.answer (.empty ⟨1, 1000, true⟩) requests).2
  have hlookups : cache.stats.lookups ≠ 0 := by decide +kernel
  have hlarger : (cache.stats.largerCapacity? cache.settings).isSome = true := by decide +kernel
  obtain ⟨a, ha, hk⟩ := exists_larger [] hlookups hlarger
  obtain ⟨n, hn, hless⟩ := hclaim [] cache.stats cache.settings hlookups (by decide) (by decide) a ha hk
  obtain rfl : halfMore cache.settings.capacity = n := Option.some.inj ((suggested_increase ha hk).symm.trans hn)
  rw [lt_halfMore_iff (by decide)] at hless
  exact absurd hless (by decide)

end FieldBridge

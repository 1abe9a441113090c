import FieldBridge.Advice.Summary
import FieldBridge.Proofs.Cache.Invariant
import FieldBridge.Proofs.Decimal.Dyadic

/-!
# Following advice loses nothing

Whatever is advised, a capacity that is suggested has room for all that is held. A cache
that takes such a capacity evicts nothing, and what is done without being asked is an
increase.
-/

namespace FieldBridge

open Decimal

/-! ## Half as much again -/

theorem halfMore_eq {n : Nat} (h : n < 2 ^ 50) : halfMore n = 3 * n / 2 := by
  unfold halfMore
  by_cases hn : n = 0
  · subst hn
    decide
  · have hcount : IsDyadic (Float.ofNat n) n 0 := .ofNat (by omega) (by omega)
    have hfactor : IsDyadic 1.5 3 (-1) := ⟨by decide, by decide, by decide, by decide, by decide, rfl⟩
    have hmul := hcount.mul hfactor (by omega) (by decide) (by decide)
    have hwhole : (⟨false, n * 3, 0 + -1⟩ : Binary).whole = n * 3 / 2 := rfl
    rw [hmul.floor64, hwhole]
    omega

theorem le_halfMore {n : Nat} (h : n < 2 ^ 50) : n ≤ halfMore n := by
  rw [halfMore_eq h]
  omega

/-! ## What is advised -/

section
variable {results : List BenchmarkResult} {stats : CacheStats} {settings : CacheSettings} {a : Advice}

theorem Improvement.kind_advice {i : Improvement} (h : i.advice? = some a) :
    a.kind = .prioritizeCaching ∨ a.kind = .skipCaching := by
  unfold advice? at h
  split at h
  · cases h
    exact .inl rfl
  · split at h
    · cases h
      exact .inr rfl
    · cases h

namespace CacheStats

theorem largerCapacity?_spec (h : stats.largerCapacity? settings = some a) : stats.hitRate < 0.5 ∧
    ∃ text, a = .forCache .increaseCapacity .medium text settings.capacity (halfMore settings.capacity) := by
  unfold largerCapacity? at h
  split at h
  · rename_i hcond
    cases h
    rw [Bool.and_eq_true, decide_eq_true_eq] at hcond
    exact ⟨hcond.1, _, rfl⟩
  · cases h

theorem longerTtl?_spec (h : stats.longerTtl? settings = some a) : stats.hitRate < 0.3 ∧
    ∃ text, a =
      .forCache .increaseTtl .medium text settings.ttlMilliseconds (double64 settings.ttlMilliseconds) := by
  unfold longerTtl? at h
  split at h
  · rename_i hrate
    cases h
    exact ⟨hrate, _, rfl⟩
  · cases h

theorem smallerCapacity?_spec (h : stats.smallerCapacity? settings = some a) :
    stats.hitRate > 0.9 ∧ max (halfMore stats.size) 100 < settings.capacity ∧
      ∃ text, a = .forCache .decreaseCapacity .low text settings.capacity (max (halfMore stats.size) 100) := by
  unfold smallerCapacity? at h
  dsimp only at h
  split at h
  · rename_i hcond
    cases h
    simp only [Bool.and_eq_true, decide_eq_true_eq] at hcond
    exact ⟨hcond.1.1, hcond.2, _, rfl⟩
  · cases h

theorem mem_advice_iff : a ∈ stats.advice settings ↔ stats.largerCapacity? settings = some a ∨
    stats.longerTtl? settings = some a ∨ stats.smallerCapacity? settings = some a := by
  simp [advice]

end CacheStats

theorem mem_analyze_advice (h : a ∈ (analyze results stats settings).advice) :
    (a.kind = .prioritizeCaching ∨ a.kind = .skipCaching) ∨ stats.lookups ≠ 0 ∧ a ∈ stats.advice settings := by
  simp only [analyze, List.mem_append, List.mem_filterMap] at h
  obtain ⟨i, -, hi⟩ | h := h
  · exact .inl (Improvement.kind_advice hi)
  · by_cases hl : stats.lookups = 0
    · simp [hl] at h
    · exact .inr ⟨hl, by simpa [hl] using h⟩

theorem mem_analyze_advice_of_mem (hl : stats.lookups ≠ 0) (h : a ∈ stats.advice settings) :
    a ∈ (analyze results stats settings).advice := by
  simp [analyze, hl, h]

/-- Each kind of advice on the cache has one source. -/
theorem source_of_mem (h : a ∈ (analyze results stats settings).advice) :
    (a.kind = .increaseCapacity → stats.largerCapacity? settings = some a) ∧
    (a.kind = .increaseTtl → stats.lookups ≠ 0 ∧ stats.longerTtl? settings = some a) ∧
    (a.kind = .decreaseCapacity → stats.smallerCapacity? settings = some a) := by
  obtain (hr | hr) | ⟨hl, hc⟩ := mem_analyze_advice h
  · simp [hr]
  · simp [hr]
  · obtain hc | hc | hc := CacheStats.mem_advice_iff.mp hc
    · obtain ⟨-, _, rfl⟩ := CacheStats.largerCapacity?_spec hc
      simp [Advice.forCache, hc]
    · obtain ⟨-, _, rfl⟩ := CacheStats.longerTtl?_spec hc
      simp [Advice.forCache, hl, hc]
    · obtain ⟨-, -, _, rfl⟩ := CacheStats.smallerCapacity?_spec hc
      simp [Advice.forCache, hc]

theorem suggested_increase (h : a ∈ (analyze results stats settings).advice) (hk : a.kind = .increaseCapacity) :
    a.suggested = some (halfMore settings.capacity) := by
  obtain ⟨-, _, rfl⟩ := CacheStats.largerCapacity?_spec ((source_of_mem h).1 hk)
  rfl

theorem suggested_decrease (h : a ∈ (analyze results stats settings).advice) (hk : a.kind = .decreaseCapacity) :
    a.suggested = some (max (halfMore stats.size) 100) := by
  obtain ⟨-, -, _, rfl⟩ := CacheStats.smallerCapacity?_spec ((source_of_mem h).2.2 hk)
  rfl

end

/-! ## What is done -/

theorem increases_snoc (as : List Advice) (a : Advice) : increases (as ++ [a]) =
    match a.kind, a.suggested with
    | .increaseCapacity, some capacity => { increases as with capacity := some capacity }
    | .increaseTtl, some milliseconds =>
      { increases as with ttl := some (Nanoseconds.ofMilliseconds milliseconds) }
    | _, _ => increases as := by
  unfold increases
  rw [List.foldl_append]
  rfl

/-- The update changes no more than the capacity, to one that an increase suggests, and the lifetime. -/
theorem increases_spec (as : List Advice) : (increases as).enabled = none ∧
    ∀ n, (increases as).capacity = some n → ∃ a ∈ as, a.kind = .increaseCapacity ∧ a.suggested = some n := by
  induction as using List.reverseRecOn with
  | nil => simp [increases]
  | append_singleton as a ih =>
    obtain ⟨henabled, hcapacity⟩ := ih
    have hmore : ∀ n, (increases as).capacity = some n →
        ∃ b ∈ as ++ [a], b.kind = .increaseCapacity ∧ b.suggested = some n := by
      intro n hn
      obtain ⟨b, hb, hrest⟩ := hcapacity n hn
      exact ⟨b, List.mem_append_left _ hb, hrest⟩
    rw [increases_snoc]
    split
    · rename_i m hk hs
      refine ⟨henabled, ?_⟩
      intro n hn
      exact ⟨a, List.mem_append_right _ List.mem_cons_self, hk, hs.trans hn⟩
    · exact ⟨henabled, hmore⟩
    · exact ⟨henabled, hmore⟩

namespace Cache

variable {c : Cache}

theorem evictTo_of_room {bound : Nat} (h : c.size ≤ bound) : c.evictTo bound = c := by
  unfold evictTo
  cases c.order.length with
  | zero => rfl
  | succ n => simp [evictTo.go, h]

theorem updateSettings_of_room {u : SettingsUpdate} (hu : u.capacity ≠ some 0)
    (hroom : c.size ≤ (c.settings.apply u).capacity) :
    c.updateSettings u = (.ok (c.settings.apply u), { c with settings := c.settings.apply u }) := by
  unfold updateSettings
  rw [if_neg hu]
  exact congrArg (Prod.mk _) (evictTo_of_room hroom)

/-- An update with a capacity that has room for what is held. -/
theorem updateSettings_of_capacity {u : SettingsUpdate} {n : Nat} (hu : u.capacity = some n) (hpos : n ≠ 0)
    (hroom : c.size ≤ n) :
    c.updateSettings u = (.ok (c.settings.apply u), { c with settings := c.settings.apply u }) := by
  apply updateSettings_of_room
  · simpa [hu] using hpos
  · simpa [CacheSettings.apply, hu] using hroom

theorem optimize_eq (hc : c.WellKept) (hsmall : c.settings.capacity < 2 ^ 50) (results : List BenchmarkResult) :
    ∃ s : CacheSettings, c.optimize results = (.ok s, { c with settings := s }) ∧
      s.enabled = c.settings.enabled ∧ c.settings.capacity ≤ s.capacity := by
  have hpositive := hc.capacity
  have hgrow := le_halfMore hsmall
  obtain ⟨henabled, hcapacity⟩ := increases_spec (analyze results c.stats c.settings).advice
  unfold optimize
  generalize increases (analyze results c.stats c.settings).advice = u at henabled hcapacity
  have hsame : (c.settings.apply u).enabled = c.settings.enabled := by simp [CacheSettings.apply, henabled]
  cases hu : u.capacity with
  | none =>
    have hkeep : (c.settings.apply u).capacity = c.settings.capacity := by simp [CacheSettings.apply, hu]
    refine ⟨_, updateSettings_of_room (by simp [hu]) (hkeep ▸ hc.bounded), hsame, hkeep.ge⟩
  | some n =>
    obtain ⟨a, ha, hk, hs⟩ := hcapacity n hu
    obtain rfl : halfMore c.settings.capacity = n := Option.some.inj ((suggested_increase ha hk).symm.trans hs)
    refine ⟨_, updateSettings_of_capacity hu (by omega) (hc.bounded.trans hgrow), hsame, ?_⟩
    simpa [CacheSettings.apply, hu] using hgrow

theorem suggested_room (hc : c.WellKept) (hsmall : c.settings.capacity < 2 ^ 50) {results : List BenchmarkResult}
    {a : Advice} (ha : a ∈ (analyze results c.stats c.settings).advice)
    (hk : a.kind = .increaseCapacity ∨ a.kind = .decreaseCapacity) :
    ∃ n, a.suggested = some n ∧ n ≠ 0 ∧ c.size ≤ n := by
  have hpositive := hc.capacity
  have hbounded := hc.bounded
  obtain hk | hk := hk
  · have hgrow := le_halfMore hsmall
    exact ⟨_, suggested_increase ha hk, by omega, by omega⟩
  · have hgrow := le_halfMore (hbounded.trans_lt hsmall)
    have hsize : c.stats.size = c.size := rfl
    refine ⟨_, suggested_decrease ha hk, by omega, ?_⟩
    rw [hsize]
    omega

end Cache

/-- **Following advice loses nothing.** What the increases make of a cache differs from it in its
settings only, and its capacity has not become smaller. Every capacity that is suggested has room
for all entries, so that setting it evicts none of them. -/
theorem optimize_keeps {cache : Cache} (hr : cache.Reachable) (hsmall : cache.settings.capacity < 2 ^ 50)
    (results : List BenchmarkResult) :
    (∃ s : CacheSettings, cache.optimize results = (.ok s, { cache with settings := s }) ∧
      s.enabled = cache.settings.enabled ∧ cache.settings.capacity ≤ s.capacity) ∧
    ∀ a ∈ (analyze results cache.stats cache.settings).advice,
      a.kind = .increaseCapacity ∨ a.kind = .decreaseCapacity →
      ∃ n, a.suggested = some n ∧ cache.size ≤ n ∧ ∀ u : SettingsUpdate, u.capacity = some n →
        cache.updateSettings u = (.ok (cache.settings.apply u), { cache with settings := cache.settings.apply u }) := by
  obtain ⟨q, hq⟩ := hr.refines
  refine ⟨Cache.optimize_eq hq.wellKept hsmall results, ?_⟩
  intro a ha hk
  obtain ⟨n, hs, hpos, hroom⟩ := Cache.suggested_room hq.wellKept hsmall ha hk
  refine ⟨n, hs, hroom, ?_⟩
  intro u hu
  exact Cache.updateSettings_of_capacity hu hpos hroom

/-- A full cache whose lookups all missed, for which a larger capacity is advised. -/
theorem optimize_keeps_full :
    let shout (v : Json) : Request Failure := .getOrCompute ⟨"shout", v, .empty⟩ (.ok (.string "loud"))
    let requests := [shout (.string "a"), shout (.string "b")]
    let clock : Clock := { pace := fun _ => 300 }
    let cache : Cache := (answers Cache.answer (.empty ⟨2, 1000, true⟩ clock) requests).2
    cache.Reachable ∧ cache.settings.capacity < 2 ^ 50 ∧
      (∃ s : CacheSettings, cache.optimize [] = (.ok s, { cache with settings := s }) ∧
        s.enabled = cache.settings.enabled ∧ cache.settings.capacity ≤ s.capacity) ∧
      ∃ a ∈ (analyze [] cache.stats cache.settings).advice, a.kind = .increaseCapacity ∧ a.suggested = some 3 ∧
        cache.updateSettings { capacity := some 3 } =
          (.ok ⟨3, 1000, true⟩, { cache with settings := ⟨3, 1000, true⟩ }) := by
  intro shout requests clock cache
  have hr : cache.Reachable := ⟨⟨2, 1000, true⟩, clock, requests, by decide, rfl⟩
  have hsmall : cache.settings.capacity < 2 ^ 50 := by decide
  obtain ⟨hdone, hadvised⟩ := optimize_keeps hr hsmall []
  have hlarger : (cache.stats.largerCapacity? cache.settings).map (fun a => (a.kind, a.suggested)) =
      some (.increaseCapacity, some 3) := by decide +kernel
  obtain ⟨a, ha, hpair⟩ := Option.map_eq_some_iff.mp hlarger
  obtain ⟨hk, hs⟩ := Prod.mk.inj hpair
  have hlookups : cache.stats.lookups ≠ 0 := by decide +kernel
  have hmem : a ∈ (analyze [] cache.stats cache.settings).advice := by
    simp [analyze, CacheStats.advice, hlookups, ha]
  obtain ⟨n, hn, -, hupdate⟩ := hadvised a hmem (.inl hk)
  obtain rfl : n = 3 := Option.some.inj (hn.symm.trans hs)
  exact ⟨hr, hsmall, hdone, a, hmem, hk, hs, hupdate { capacity := some 3 } rfl⟩

end FieldBridge

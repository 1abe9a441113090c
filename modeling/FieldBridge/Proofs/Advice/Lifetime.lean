import FieldBridge.Configuration.Basic
import FieldBridge.Proofs.Advice.Settings

/-!
# What following advice does to the lifetime

Where hardly any lookup hits, twice the lifetime is advised, in whole milliseconds and as far as 64
bits reach. A lifetime between one millisecond and the most milliseconds that 64 bits hold does not
become shorter in this way. Of a longer one only what they hold is doubled, and that is always
shorter; of a shorter one there is no whole millisecond to double, and it becomes none at all.
-/

namespace FieldBridge

/-- There were lookups, and hardly any of them was a hit. -/
def CacheStats.Cold (stats : CacheStats) : Prop := stats.lookups ≠ 0 ∧ stats.hitRate < 0.3

instance : DecidablePred CacheStats.Cold := fun stats =>
  inferInstanceAs (Decidable (stats.lookups ≠ 0 ∧ stats.hitRate < 0.3))

/-! ## Twice as much -/

/-- A lifetime that does not become shorter when its milliseconds are doubled in 64 bits: there is
none, or it has a whole millisecond and no more of them than 64 bits hold. -/
def CacheSettings.CanDouble (s : CacheSettings) : Prop :=
  s.ttl = 0 ∨ Nanoseconds.ofMilliseconds 1 ≤ s.ttl ∧ s.ttl ≤ Nanoseconds.ofMilliseconds (2 ^ 64 - 1)

instance : DecidablePred CacheSettings.CanDouble := fun s =>
  inferInstanceAs (Decidable (s.ttl = 0 ∨ _))

/-- The lifetime that follows from the advice to double it. -/
def CacheSettings.doubledTtl (s : CacheSettings) : Nat := Nanoseconds.ofMilliseconds (double64 s.ttlMilliseconds)

theorem CacheSettings.le_doubledTtl_iff (s : CacheSettings) : s.ttl ≤ s.doubledTtl ↔ s.CanDouble := by
  have hwhole : s.ttlMilliseconds = s.ttl / 1000000 % 2 ^ 64 := rfl
  unfold doubledTtl CanDouble Nanoseconds.ofMilliseconds double64
  rw [hwhole]
  omega

/-! ## The lifetime that is advised -/

section
variable {results : List BenchmarkResult} {stats : CacheStats} {settings : CacheSettings} {a : Advice}

theorem suggested_lifetime (h : a ∈ (analyze results stats settings).advice) (hk : a.kind = .increaseTtl) :
    stats.Cold ∧ a.suggested = some (double64 settings.ttlMilliseconds) := by
  obtain ⟨hl, hlonger⟩ := (source_of_mem h).2.1 hk
  obtain ⟨hrate, _, rfl⟩ := CacheStats.longerTtl?_spec hlonger
  exact ⟨⟨hl, hrate⟩, rfl⟩

theorem exists_lifetime (results : List BenchmarkResult) (settings : CacheSettings) (h : stats.Cold) :
    ∃ a ∈ (analyze results stats settings).advice, a.kind = .increaseTtl := by
  obtain ⟨hl, hrate⟩ := h
  obtain ⟨a, ha⟩ : ∃ a, stats.longerTtl? settings = some a := ⟨_, if_pos hrate⟩
  refine ⟨a, mem_analyze_advice_of_mem hl (CacheStats.mem_advice_iff.mpr (.inr (.inl ha))), ?_⟩
  obtain ⟨-, _, rfl⟩ := CacheStats.longerTtl?_spec ha
  rfl

/-! ## The lifetime that is set -/

/-- Where all advice to lengthen the lifetime suggests the same one, the order of the advice does not matter. -/
theorem ttl_increases {as : List Advice} {n : Nat} (h : ∀ a ∈ as, a.kind = .increaseTtl → a.suggested = some n) :
    (increases as).ttl = if ∃ a ∈ as, a.kind = .increaseTtl then some (Nanoseconds.ofMilliseconds n) else none := by
  induction as using List.reverseRecOn with
  | nil => simp [increases]
  | append_singleton as a ih =>
    have hbefore := ih fun b hb => h b (List.mem_append_left _ hb)
    have hlast := h a (List.mem_append_right _ List.mem_cons_self)
    have hor : (∃ b ∈ as ++ [a], b.kind = .increaseTtl) ↔
        (∃ b ∈ as, b.kind = .increaseTtl) ∨ a.kind = .increaseTtl := by
      simp [or_and_right, exists_or]
    rw [increases_snoc, if_congr hor rfl rfl]
    by_cases hk : a.kind = .increaseTtl
    · rw [if_pos (.inr hk), hk, hlast hk]
    · rw [if_congr (or_iff_left hk) rfl rfl, ← hbefore]
      split
      · rfl
      · rename_i hk' _
        exact absurd hk' hk
      · rfl

theorem ttl_increases_analyze (results : List BenchmarkResult) (stats : CacheStats) (settings : CacheSettings) :
    (increases (analyze results stats settings).advice).ttl =
      if stats.Cold then some settings.doubledTtl else none := by
  have hsame : ∀ a ∈ (analyze results stats settings).advice, a.kind = .increaseTtl →
      a.suggested = some (double64 settings.ttlMilliseconds) := fun _ ha hk => (suggested_lifetime ha hk).2
  have hcold : (∃ a ∈ (analyze results stats settings).advice, a.kind = .increaseTtl) ↔ stats.Cold := by
    refine ⟨?_, exists_lifetime results settings⟩
    rintro ⟨a, ha, hk⟩
    exact (suggested_lifetime ha hk).1
  rw [ttl_increases hsame, if_congr hcold rfl rfl]
  rfl

end

namespace Cache

variable {c d : Cache} {s : CacheSettings}

theorem settings_updateSettings {u : SettingsUpdate} (h : c.updateSettings u = (.ok s, d)) :
    s = c.settings.apply u ∧ d.settings = s := by
  unfold updateSettings at h
  split at h
  · cases h
  · cases h
    exact ⟨rfl, settings_of_clearEntries (clearEntries_evictTo { c with settings := c.settings.apply u } _)⟩

theorem ttl_optimize {results : List BenchmarkResult} (h : c.optimize results = (.ok s, d)) :
    d.settings = s ∧ s.ttl = if c.stats.Cold then c.settings.doubledTtl else c.settings.ttl := by
  obtain ⟨hs, hd⟩ := settings_updateSettings h
  refine ⟨hd, ?_⟩
  rw [hs, CacheSettings.apply, ttl_increases_analyze]
  dsimp only
  split <;> rfl

end Cache

/-- **How following advice changes the lifetime.** Where hardly any lookup hits, its milliseconds are
doubled in 64 bits, and elsewhere it is kept. It becomes shorter where they are doubled and it is
under one millisecond or over the most milliseconds that 64 bits hold, and nowhere else. -/
theorem optimize_lifetime {cache : Cache} (hr : cache.Reachable) (results : List BenchmarkResult) :
    (cache.settings.capacity < 2 ^ 50 → ∃ s after, cache.optimize results = (.ok s, after)) ∧
    ∀ s after, cache.optimize results = (.ok s, after) → after.settings = s ∧
      (s.ttl = if cache.stats.Cold then Nanoseconds.ofMilliseconds (double64 cache.settings.ttlMilliseconds)
        else cache.settings.ttl) ∧
      (cache.settings.ttl ≤ s.ttl ↔ cache.stats.Cold → cache.settings.ttl = 0 ∨
        Nanoseconds.ofMilliseconds 1 ≤ cache.settings.ttl ∧
          cache.settings.ttl ≤ Nanoseconds.ofMilliseconds (2 ^ 64 - 1)) := by
  obtain ⟨q, hq⟩ := hr.refines
  constructor
  · intro hsmall
    obtain ⟨s, hs, -⟩ := Cache.optimize_eq hq.wellKept hsmall results
    exact ⟨_, _, hs⟩
  · intro s after hafter
    obtain ⟨hsettings, httl⟩ := Cache.ttl_optimize hafter
    refine ⟨hsettings, httl, ?_⟩
    rw [httl]
    by_cases hcold : cache.stats.Cold
    · simp only [hcold, if_true, forall_const]
      exact cache.settings.le_doubledTtl_iff
    · simp [hcold]

/-- A single lookup, which missed, where results live half a millisecond. -/
theorem optimize_lifetime_missed :
    let requests : List (Request Failure) := [.getOrCompute ⟨"shout", .string "a", .empty⟩ (.ok (.string "a!"))]
    let cache : Cache := (answers Cache.answer (.empty ⟨2, 500000, true⟩) requests).2
    cache.Reachable ∧ cache.settings.ttl = 500000 ∧
      ∃ s after, cache.optimize [] = (.ok s, after) ∧ after.settings.ttl = 0 := by
  intro requests cache
  have hr : cache.Reachable := ⟨⟨2, 500000, true⟩, {}, requests, by decide, rfl⟩
  have hcold : cache.stats.Cold := by decide +kernel
  obtain ⟨hdone, hlifetime⟩ := optimize_lifetime hr []
  obtain ⟨s, after, hafter⟩ := hdone (by decide)
  obtain ⟨hsettings, httl, -⟩ := hlifetime s after hafter
  refine ⟨hr, rfl, s, after, hafter, ?_⟩
  rw [hsettings, httl, if_pos hcold]
  decide

/-- It is not so that following advice never makes the lifetime shorter: it does for one of about a
billion years. -/
theorem not_keeps_lifetime : ¬∀ (configuration : Configuration) (clock : Clock) (requests : List (Request Failure))
    (results : List BenchmarkResult) (s : CacheSettings) (after : Cache),
    configuration.validate = .ok () → configuration.cache.ttlSeconds < 2 ^ 64 →
      (answers Cache.answer (.empty configuration.cacheSettings clock) requests).2.optimize results = (.ok s, after) →
        (answers Cache.answer (.empty configuration.cacheSettings clock) requests).2.settings.ttl ≤ s.ttl := by
  intro hclaim
  let configuration : Configuration := { cache := { ttlSeconds := 30000000000000000 } }
  let requests : List (Request Failure) := [.getOrCompute ⟨"shout", .string "a", .empty⟩ (.ok (.string "a!"))]
  let cache : Cache := (answers Cache.answer (.empty configuration.cacheSettings) requests).2
  have hr : cache.Reachable := ⟨configuration.cacheSettings, {}, requests, by decide, rfl⟩
  obtain ⟨q, hq⟩ := hr.refines
  obtain ⟨s, hs, -⟩ := Cache.optimize_eq hq.wellKept (by decide : cache.settings.capacity < 2 ^ 50) []
  have hcold : cache.stats.Cold := by decide +kernel
  have hle := hclaim configuration {} requests [] _ _ (by decide) (by decide) hs
  rw [(Cache.ttl_optimize hs).2, if_pos hcold] at hle
  exact absurd (cache.settings.le_doubledTtl_iff.mp hle) (by decide)

end FieldBridge

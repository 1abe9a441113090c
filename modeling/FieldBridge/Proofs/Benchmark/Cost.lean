import FieldBridge.Proofs.Benchmark.Traffic
import Mathlib.Data.List.Dedup
import Mathlib.Data.List.Perm.Lattice

/-!
# The cost of a benchmark with room in the cache

Where all results fit, each of them is missed once and found ever after, and what fails is
missed every time.
-/

namespace FieldBridge

namespace Conversion

/-- At how many places a conversion fails. -/
def failures (t : Conversion) (vs : List Json) : Nat := vs.countP fun v => !t.succeeds v

/-- The values on which a conversion succeeds, each of them once. -/
def converted (t : Conversion) (vs : List Json) : List Json := (vs.filter t.succeeds).dedup

/-- Values that differ and are among some others. -/
structure Within (good held : List Json) : Prop where
  nodup : held.Nodup
  subset : held ⊆ good

variable {t : Conversion} {capacity : Nat} {good held vs us : List Json} {v : Json}

theorem mem_converted : v ∈ t.converted vs ↔ v ∈ vs ∧ t.succeeds v = true := by
  simp [converted]

theorem Within.length_le (h : Within good held) : held.length ≤ good.length :=
  (h.nodup.subperm h.subset).length_le

theorem Within.snoc (h : Within good held) (hm : v ∉ held) (hv : v ∈ good) : Within good (held ++ [v]) := by
  constructor
  · refine List.nodup_append.mpr ⟨h.nodup, List.nodup_singleton v, ?_⟩
    intro u hu w hw he
    rw [List.mem_singleton.mp hw] at he
    exact hm (he ▸ hu)
  · exact List.append_subset.mpr ⟨h.subset, by simpa using hv⟩

/-- In a cache with room for all that may come nothing is dropped. -/
theorem retain_of_room (hroom : good.length ≤ capacity) (h : Within good held) (hm : v ∉ held)
    (hs : t.succeeds v = true) (hv : v ∈ good) : t.retain capacity held v = held ++ [v] := by
  have hlen := (h.snoc hm hv).length_le
  rw [retain, if_neg hm, if_pos hs, List.rtake, Nat.sub_eq_zero_of_le (by omega), List.drop_zero]

/-- One value in a cache with room: it is held afterwards if it can be converted, and missed
if it fails or is new. -/
structure Retained (t : Conversion) (good held : List Json) (v : Json) (after : List Json) : Prop where
  within : Within good after
  mem_iff : ∀ u, u ∈ after ↔ u ∈ held ∨ u = v ∧ t.succeeds v = true
  missed : (Lookups.record {} (decide (v ∈ held))).misses + held.length = t.failures [v] + after.length

theorem retained_of_room (hroom : good.length ≤ capacity) (hgood : ∀ u ∈ good, t.succeeds u = true)
    (h : Within good held) (hv : t.succeeds v = true → v ∈ good) :
    Retained t good held v (t.retain capacity held v) := by
  by_cases hm : v ∈ held
  · have hs := hgood v (h.subset hm)
    have hsame : t.retain capacity held v = held := if_pos hm
    rw [hsame]
    refine ⟨h, ?_, ?_⟩
    · intro u
      constructor
      · exact Or.inl
      · rintro (hu | ⟨rfl, -⟩)
        · exact hu
        · exact hm
    · simp [hm, failures, hs, Lookups.record]
  · by_cases hs : t.succeeds v = true
    · have hnew := retain_of_room hroom h hm hs (hv hs)
      rw [hnew]
      refine ⟨h.snoc hm (hv hs), ?_, ?_⟩
      · intro u
        simp [hs]
      · simp [hm, failures, hs, Lookups.record]
        omega
    · have hsame : t.retain capacity held v = held := by
        rw [retain, if_neg hm, if_neg hs]
      rw [hsame]
      refine ⟨h, ?_, ?_⟩
      · intro u
        simp [hs]
      · simp [hm, failures, hs, Lookups.record]

theorem retainedAll_of_room (hroom : good.length ≤ capacity) (hgood : ∀ u ∈ good, t.succeeds u = true)
    (h : Within good held) (hvs : ∀ v ∈ vs, t.succeeds v = true → v ∈ good) :
    Within good (t.retainAll capacity held vs) ∧
      (∀ u, u ∈ t.retainAll capacity held vs ↔ u ∈ held ∨ u ∈ vs ∧ t.succeeds u = true) ∧
      (t.lookups capacity held vs).misses + held.length = t.failures vs + (t.retainAll capacity held vs).length := by
  -- the misses are those of the failures and one for each value that is held now and was not before
  induction vs generalizing held with
  | nil => simp [retainAll, lookups, failures, h]
  | cons v vs ih =>
    have hone := retained_of_room hroom hgood h (hvs v List.mem_cons_self)
    obtain ⟨hwithin, hmem, hmissed⟩ := ih hone.within fun u hu => hvs u (List.mem_cons_of_mem _ hu)
    refine ⟨hwithin, ?_, ?_⟩
    · intro u
      have hu := hmem u
      rw [hone.mem_iff] at hu
      refine hu.trans ?_
      simp only [List.mem_cons]
      constructor
      · rintro ((hu | ⟨rfl, hs⟩) | ⟨hu, hs⟩)
        · exact .inl hu
        · exact .inr ⟨.inl rfl, hs⟩
        · exact .inr ⟨.inr hu, hs⟩
      · rintro (hu | ⟨rfl | hu, hs⟩)
        · exact .inl (.inl hu)
        · exact .inl (.inr ⟨rfl, hs⟩)
        · exact .inr ⟨hu, hs⟩
    · have hstep := hone.missed
      have hsplit : t.failures ([v] ++ vs) = t.failures [v] + t.failures vs := List.countP_append
      rw [List.singleton_append] at hsplit
      simp only [lookups, Lookups.plus, retainAll, List.foldl_cons] at hmissed ⊢
      omega

theorem perm_converted (h : held.Nodup) (hmem : ∀ u, u ∈ held ↔ u ∈ vs ∧ t.succeeds u = true) :
    held.Perm (t.converted vs) := by
  apply (List.perm_ext_iff_of_nodup h (List.nodup_dedup _)).mpr
  intro u
  rw [hmem]
  exact mem_converted.symm

end Conversion

open Conversion

namespace Benchmark

/-- At how many places of the samples a conversion fails. -/
def failing (t : Conversion) (samples : Nat) : Nat := t.failures (t.source.samples samples)

/-- How many different samples a conversion succeeds on. -/
def distinct (t : Conversion) (samples : Nat) : Nat := (t.converted (t.source.samples samples)).length

/-- What a comparative benchmark does to a cache with room for all results: what fails is missed in
every pass, what succeeds is missed once and kept. -/
structure Cost (t : Conversion) (iterations samples : Nat) (before after : Cache) : Prop where
  covered : iterations * failing t samples + distinct t samples ≤ iterations * samples
  counted : Counted t.id
    ⟨iterations * samples - iterations * failing t samples - distinct t samples,
      iterations * failing t samples + distinct t samples⟩ before after
  size : after.size = distinct t samples
  owned : ∀ p ∈ after.entries, p.2.conversion = t.id
  stored : ∀ v ∈ t.source.samples samples, t.succeeds v = true →
    ∃ e, after.find? (t.call v).key = some e ∧ t.run v .empty = .ok e.value

variable {t : Conversion} {iterations samples : Nat}

theorem failures_traffic (t : Conversion) (iterations samples : Nat) :
    t.failures (traffic t iterations samples) = iterations * failing t samples := by
  simp [failures, failing, traffic, List.countP_flatten]

theorem mem_traffic (hi : 1 ≤ iterations) {v : Json} :
    v ∈ traffic t iterations samples ↔ v ∈ t.source.samples samples := by
  have hne : iterations ≠ 0 := by omega
  simp [traffic, hne]

/-- **The cost of a comparative benchmark.** In a cache with room for the results of all samples, the
different samples that can be converted are missed once each and those that fail in every iteration,
all other lookups hit, and the results are all that is held, unless the benchmark takes longer than
they live. -/
theorem comparative_cost (ts : List Conversion) (ht : t ∈ (Catalog.empty.offerAll ts).conversions) {cache : Cache}
    (hr : cache.Reachable) (hon : cache.settings.enabled = true) (hi : 1 ≤ iterations)
    (httl : duration (Catalog.empty.offerAll ts) cache t.id iterations samples < cache.settings.ttl)
    (hroom : distinct t samples ≤ cache.settings.capacity) :
    ∃ results after, comparative (Catalog.empty.offerAll ts) cache t.id iterations samples = (.ok results, after) ∧
      Cost t iterations samples cache after := by
  have hc : (Catalog.empty.offerAll ts).Indexed := (Catalog.orderly_empty.offerAll ts).toIndexed
  obtain ⟨results, after, heq, hcounted, hfills⟩ := comparative_held hc ht hr hon hi httl
  refine ⟨results, after, heq, ?_⟩
  have hgood : ∀ u ∈ t.converted (t.source.samples samples), t.succeeds u = true :=
    fun u hu => (mem_converted.mp hu).2
  have hall : ∀ v ∈ traffic t iterations samples, t.succeeds v = true → v ∈ t.converted (t.source.samples samples) :=
    fun v hv hs => mem_converted.mpr ⟨(mem_traffic hi).mp hv, hs⟩
  obtain ⟨hwithin, hmem, hmissed⟩ :=
    retainedAll_of_room hroom hgood ⟨List.nodup_nil, List.nil_subset _⟩ hall
  have htotal := total_lookups t cache.settings.capacity [] (traffic t iterations samples)
  generalize t.lookups cache.settings.capacity [] (traffic t iterations samples) = l at hcounted hmissed htotal
  generalize t.retainAll cache.settings.capacity [] (traffic t iterations samples) = held at hfills hwithin hmem hmissed
  have hheld : ∀ u, u ∈ held ↔ u ∈ t.source.samples samples ∧ t.succeeds u = true := by
    intro u
    rw [hmem, mem_traffic hi]
    simp
  have hlen : held.length = distinct t samples := (perm_converted hwithin.nodup hheld).length_eq
  rw [failures_traffic, hlen, List.length_nil] at hmissed
  rw [length_traffic, Lookups.total] at htotal
  refine ⟨by omega, ?_, ?_, hfills.owned, ?_⟩
  · have hl : l = ⟨iterations * samples - iterations * failing t samples - distinct t samples,
        iterations * failing t samples + distinct t samples⟩ := by
      obtain ⟨hits, misses⟩ := l
      simp only [Lookups.mk.injEq] at hmissed htotal ⊢
      omega
    rw [← hl]
    exact hcounted
  · rw [hfills.size, hlen]
  · intro v hv hs
    exact hfills.stored v ((hheld v).mpr ⟨hv, hs⟩)

/-- A sample that comes twice, one that fails, and a cache that is full of something else. -/
theorem comparative_cost_ticks :
    let tick : Conversion :=
      { id := "tick", source := .checkbox, target := .email, name := "Tick", description := "", impact := .low
        complexity := .low, benchmarkable := true, sample := ⟨.bool true, .string "yes"⟩
        run := fun v _ =>
          match v with
          | .bool true => .ok (.string "yes")
          | _ => .error (.rejected "not ticked") }
    let c : Catalog := Catalog.empty.offerAll [tick]
    let shouting : Request Failure := .getOrCompute ⟨"shout", .string "a", .empty⟩ (.ok (.string "a!"))
    let clock : Clock := { pace := fun _ => 50 }
    let cache : Cache := (answers Cache.answer (.empty ⟨1, 1000, true⟩ clock) [shouting, .wait 300]).2
    tick ∈ c.conversions ∧ cache.Reachable ∧ cache.settings.enabled = true ∧ 1 ≤ 2 ∧
      duration c cache tick.id 2 3 < cache.settings.ttl ∧ distinct tick 3 ≤ cache.settings.capacity ∧
      failing tick 3 = 1 ∧ distinct tick 3 = 1 ∧
      ∃ results after, comparative c cache tick.id 2 3 = (.ok results, after) ∧ Cost tick 2 3 cache after := by
  intro tick c shouting clock cache
  have ht : tick ∈ c.conversions := List.mem_singleton_self tick
  have hr : cache.Reachable := ⟨⟨1, 1000, true⟩, clock, [shouting, .wait 300], by decide, rfl⟩
  have hsettings : cache.settings = ⟨1, 1000, true⟩ := rfl
  have httl : duration c cache tick.id 2 3 < cache.settings.ttl := by decide +kernel
  have hdistinct : distinct tick 3 = 1 := by decide
  have hfailing : failing tick 3 = 1 := by decide
  have hroom : distinct tick 3 ≤ cache.settings.capacity := by
    rw [hdistinct, hsettings]
  exact ⟨ht, hr, rfl, by decide, httl, hroom, hfailing, hdistinct,
    comparative_cost [tick] ht hr rfl (by decide) httl hroom⟩

end Benchmark

end FieldBridge

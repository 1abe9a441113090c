import FieldBridge.Proofs.Advice.Settings
import FieldBridge.Proofs.Advice.Pairing

/-!
# The ranking of conversions

Conversions are ranked by what the cache saves them, and those that it saves the same stand in the
order in which they came first. There is only one such ranking. The advice on single conversions
goes through it from top to bottom.
-/

namespace FieldBridge

open Decimal

/-! ## Stable sorting -/

section
variable {α : Type} {as : List α} {R : α → α → Prop} {le : α → α → Bool}

/-- What a sort may leave in its order stays in it. -/
theorem pairwise_mergeSort_of_ties (htrans : ∀ a b c, le a b → le b c → le a c) (htotal : ∀ a b, le a b || le b a)
    (h : as.Pairwise R) : (as.mergeSort le).Pairwise fun a b => le b a = true → R a b := by
  induction as with
  | nil => simp
  | cons a as ih =>
    obtain ⟨hfirst, hrest⟩ := List.pairwise_cons.mp h
    obtain ⟨before, after, hsort, hsort', hbefore⟩ := List.mergeSort_cons htrans htotal a as
    have hafter : ∀ b ∈ after, R a b := by
      intro b hb
      have hmem : b ∈ as.mergeSort le := hsort' ▸ List.mem_append_right _ hb
      exact hfirst b (List.mem_mergeSort.mp hmem)
    have hsorted := ih hrest
    rw [hsort', List.pairwise_append] at hsorted
    obtain ⟨hpairs, hpairs', hacross⟩ := hsorted
    rw [hsort, List.pairwise_append, List.pairwise_cons]
    refine ⟨hpairs, ⟨fun b hb _ => hafter b hb, hpairs'⟩, ?_⟩
    intro b hb c hc
    obtain rfl | hc := List.mem_cons.mp hc
    -- only what is strictly before it is put before the first one
    · intro hle
      exact absurd (hbefore b hb) (by simp [hle])
    · exact hacross b hb c hc

/-- Greatest first, and what is as great in the order in which it was. -/
theorem pairwise_mergeSort_totalLe (key : α → Float) (h : as.Pairwise R) :
    (as.mergeSort fun a b => totalLe (key b) (key a)).Pairwise fun a b =>
      totalLe (key b) (key a) = true ∧ (totalLe (key a) (key b) = true → R a b) := by
  have htrans : ∀ a b c, totalLe (key b) (key a) = true → totalLe (key c) (key b) = true →
      totalLe (key c) (key a) = true := fun _ _ _ hab hbc => totalLe_trans hbc hab
  have htotal : ∀ a b, totalLe (key b) (key a) || totalLe (key a) (key b) := fun a b => totalLe_total (key b) (key a)
  exact (List.pairwise_mergeSort htrans htotal as).and (pairwise_mergeSort_of_ties htrans htotal h)

end

/-! ## What a ranking is -/

theorem IsFirst.unique {results : List BenchmarkResult} {id : String} {cached : Bool} {r s : BenchmarkResult}
    (hr : IsFirst results id cached r) (hs : IsFirst results id cached s) : r = s := by
  rw [← find?_iff_isFirst] at hr hs
  exact Option.some.inj (hr.symm.trans hs)

/-- One entry for each id with results in both modes, made of its first ones, with the greatest
improvement first. -/
structure IsRanking (results : List BenchmarkResult) (ranking : List Improvement) : Prop where
  nodup : (ranking.map (·.conversion)).Nodup
  mem_iff : ∀ id, id ∈ ranking.map (·.conversion) ↔
    hasRun results id false = true ∧ hasRun results id true = true
  first : ∀ i ∈ ranking, ∃ without cached, IsFirst results i.conversion false without ∧
    IsFirst results i.conversion true cached ∧ i = ⟨i.conversion, cached.name, improvement without cached⟩
  sorted : ranking.Pairwise fun i j => totalLe j.percent i.percent = true ∧
    (totalLe i.percent j.percent = true →
      (results.map (·.conversion)).idxOf i.conversion < (results.map (·.conversion)).idxOf j.conversion)

namespace IsRanking

variable {results : List BenchmarkResult} {ranking ranking' : List Improvement}

theorem mem_of_mem (h : IsRanking results ranking) (h' : IsRanking results ranking') {i : Improvement}
    (hi : i ∈ ranking) : i ∈ ranking' := by
  have hid : i.conversion ∈ ranking'.map (·.conversion) :=
    (h'.mem_iff _).mpr ((h.mem_iff _).mp (List.mem_map_of_mem hi))
  obtain ⟨j, hj, hsame⟩ := List.mem_map.mp hid
  obtain ⟨without, cached, hwithout, hcached, hi'⟩ := h.first i hi
  obtain ⟨without', cached', hwithout', hcached', hj'⟩ := h'.first j hj
  rw [hsame] at hwithout' hcached' hj'
  obtain rfl := hwithout.unique hwithout'
  obtain rfl := hcached.unique hcached'
  rwa [hi', ← hj']

/-- No other list of entries is a ranking of the same results. -/
theorem unique (h : IsRanking results ranking) (h' : IsRanking results ranking') : ranking = ranking' := by
  have hperm : ranking.Perm ranking' := by
    rw [List.perm_ext_iff_of_nodup (.of_map _ h.nodup) (.of_map _ h'.nodup)]
    exact fun i => ⟨h.mem_of_mem h', h'.mem_of_mem h⟩
  refine hperm.eq_of_pairwise ?_ h.sorted h'.sorted
  intro i j _ _ hij hji
  have hlt := hij.2 hji.1
  have hgt := hji.2 hij.1
  omega

end IsRanking

theorem isRanking_ranking (results : List BenchmarkResult) : IsRanking results (Improvement.ranking results) := by
  let entry (p : BenchmarkResult × BenchmarkResult) : Improvement :=
    ⟨p.2.conversion, p.2.name, improvement p.1 p.2⟩
  have hentry : ∀ p ∈ pairs results, (entry p).conversion = p.1.conversion :=
    fun p hp => (isFirst_of_mem_pairs hp).2.conversion
  have hperm : (Improvement.ranking results).Perm ((pairs results).map entry) := List.mergeSort_perm _ _
  have hids : ((pairs results).map entry).map (·.conversion) = (pairs results).map (·.1.conversion) := by
    rw [List.map_map]
    exact List.map_congr_left hentry
  have horder : ((pairs results).map entry).Pairwise fun i j =>
      (results.map (·.conversion)).idxOf i.conversion < (results.map (·.conversion)).idxOf j.conversion := by
    rw [List.pairwise_map]
    refine (pairwise_pairs results).imp_of_mem ?_
    intro p q hp hq hlt
    rwa [hentry p hp, hentry q hq]
  constructor
  · rw [(hperm.map _).nodup_iff, hids]
    exact nodup_ids_pairs results
  · intro id
    rw [(hperm.map _).mem_iff, hids]
    exact mem_ids_pairs
  · intro i hi
    obtain ⟨p, hp, rfl⟩ := List.mem_map.mp (hperm.mem_iff.mp hi)
    obtain ⟨hwithout, hcached⟩ := isFirst_of_mem_pairs hp
    rw [← hentry p hp] at hwithout hcached
    exact ⟨p.1, p.2, hwithout, hcached, rfl⟩
  · exact pairwise_mergeSort_totalLe Improvement.percent horder

/-! ## Advice on single conversions -/

namespace Improvement

variable {i : Improvement}

theorem not_small_of_great (h : i.percent > 50.0) : ¬i.percent < 5.0 := by
  intro hsmall
  have hmost : (5.0 : Float).toModel.unpack = .finite .positive (5 * 2 ^ 50) (-50) (by decide) := by rfl
  have hleast : (50.0 : Float).toModel.unpack = .finite .positive (25 * 2 ^ 48) (-47) (by decide) := by rfl
  exact not_lt_of_lt hmost hleast (.inl (by decide)) hsmall h

theorem advice?_of_great (h : i.percent > 50.0) :
    ∃ a, i.advice? = some a ∧ a.kind = .prioritizeCaching ∧ a.conversion = some i.conversion :=
  ⟨_, if_pos h, rfl, rfl⟩

theorem advice?_of_small (h : i.percent < 5.0) :
    ∃ a, i.advice? = some a ∧ a.kind = .skipCaching ∧ a.conversion = some i.conversion :=
  ⟨_, (if_neg fun hgreat => not_small_of_great hgreat h).trans (if_pos h), rfl, rfl⟩

theorem advice?_of_between (h : ¬i.percent > 50.0) (h' : ¬i.percent < 5.0) : i.advice? = none :=
  (if_neg h).trans (if_neg h')

/-- Advice that is picked out of all by what it is, when that follows from the entry it is for. -/
theorem filter_advice {keep : Advice → Bool} {p : Improvement → Bool}
    (hgreat : ∀ i a, i.percent > 50.0 → a.kind = .prioritizeCaching → a.conversion.isSome → keep a = p i)
    (hsmall : ∀ i a, i.percent < 5.0 → a.kind = .skipCaching → a.conversion.isSome → keep a = p i)
    (hbetween : ∀ i, ¬i.percent > 50.0 → ¬i.percent < 5.0 → p i = false) (is : List Improvement) :
    ((is.filterMap advice?).filter keep).map (·.conversion) = (is.filter p).map fun i => some i.conversion := by
  induction is with
  | nil => rfl
  | cons i is ih =>
    by_cases hg : i.percent > 50.0
    · obtain ⟨a, ha, hk, hid⟩ := advice?_of_great hg
      have hkeep := hgreat i a hg hk (by simp [hid])
      cases hp : p i <;> simp [ha, hkeep, hp, hid, ih]
    · by_cases hs : i.percent < 5.0
      · obtain ⟨a, ha, hk, hid⟩ := advice?_of_small hs
        have hkeep := hsmall i a hs hk (by simp [hid])
        cases hp : p i <;> simp [ha, hkeep, hp, hid, ih]
      · simp [advice?_of_between hg hs, hbetween i hg hs, ih]

end Improvement

section
variable {results : List BenchmarkResult} {stats : CacheStats} {settings : CacheSettings}

/-- Advice on the cache is for no conversion. -/
theorem CacheStats.of_mem_advice {a : Advice} (h : a ∈ stats.advice settings) :
    a.conversion = none ∧ a.kind ≠ .prioritizeCaching ∧ a.kind ≠ .skipCaching := by
  obtain h | h | h := mem_advice_iff.mp h
  · obtain ⟨-, _, rfl⟩ := largerCapacity?_spec h
    simp [Advice.forCache]
  · obtain ⟨-, _, rfl⟩ := longerTtl?_spec h
    simp [Advice.forCache]
  · obtain ⟨-, -, _, rfl⟩ := smallerCapacity?_spec h
    simp [Advice.forCache]

/-- Advice that is not on the cache comes from the ranking. -/
theorem filter_analyze_advice {keep : Advice → Bool} (hkeep : ∀ a ∈ stats.advice settings, keep a = false) :
    (analyze results stats settings).advice.filter keep =
      ((Improvement.ranking results).filterMap Improvement.advice?).filter keep := by
  have hnone : (if stats.lookups = 0 then [] else stats.advice settings).filter keep = [] := by
    rw [List.filter_eq_nil_iff]
    intro a ha
    split at ha
    · cases ha
    · rw [hkeep a ha]
      exact Bool.false_ne_true
  change ((Improvement.ranking results).filterMap Improvement.advice? ++ _).filter keep = _
  rw [List.filter_append, hnone, List.append_nil]

/-- Of the results nothing but their pairs enters into an analysis. -/
theorem analyze_append_of_known {more : List BenchmarkResult}
    (h : ∀ m ∈ more, hasRun results m.conversion m.cached = true) :
    analyze (results ++ more) stats settings = analyze results stats settings := by
  unfold analyze Improvement.ranking
  rw [pairs_append_of_known h]

end

/-- **An analysis ranks the conversions.** It has one improvement for each id with results in both
modes, from its first ones, with the greatest first and ties in order of appearance, which leaves
no choice. The best and the worst are at its ends. Advice on single conversions follows it: caching
is advised for each of more than 50 percent, and against for each of less than 5. Later results of
an id in a mode that it has already do not count. -/
theorem analyze_ranks (results : List BenchmarkResult) (stats : CacheStats) (settings : CacheSettings) :
    let summary := analyze results stats settings
    let ranking := summary.improvements
    IsRanking results ranking ∧ (∀ other, IsRanking results other → other = ranking) ∧
    summary.performance.bestName = ranking.head?.map (·.name) ∧
    summary.performance.worstName = ranking.getLast?.map (·.name) ∧
    (summary.advice.filter (·.conversion.isSome)).map (·.conversion) =
      (ranking.filter fun i => i.percent > 50.0 || i.percent < 5.0).map (fun i => some i.conversion) ∧
    (summary.advice.filter (·.kind = .prioritizeCaching)).map (·.conversion) =
      (ranking.filter fun i => i.percent > 50.0).map (fun i => some i.conversion) ∧
    (summary.advice.filter (·.kind = .skipCaching)).map (·.conversion) =
      (ranking.filter fun i => i.percent < 5.0).map (fun i => some i.conversion) ∧
    ∀ more : List BenchmarkResult, (∀ m ∈ more, hasRun results m.conversion m.cached = true) →
      analyze (results ++ more) stats settings = summary := by
  intro summary ranking
  have hranking : IsRanking results ranking := isRanking_ranking results
  refine ⟨hranking, fun _ hother => hother.unique hranking, rfl, rfl, ?_, ?_, ?_, ?_⟩
  · rw [filter_analyze_advice fun a ha => by simp [(CacheStats.of_mem_advice ha).1]]
    apply Improvement.filter_advice
    · intro i a hgreat _ hid
      simp [hid, hgreat]
    · intro i a hsmall _ hid
      simp [hid, hsmall]
    · intro i hgreat hsmall
      simp [hgreat, hsmall]
  · rw [filter_analyze_advice fun a ha => by simp [(CacheStats.of_mem_advice ha).2.1]]
    apply Improvement.filter_advice
    · intro i a hgreat hk _
      simp [hk, hgreat]
    · intro i a hsmall hk _
      have hgreat : ¬i.percent > 50.0 := fun hgreat => Improvement.not_small_of_great hgreat hsmall
      simp [hk, hgreat]
    · intro i hgreat _
      simp [hgreat]
  · rw [filter_analyze_advice fun a ha => by simp [(CacheStats.of_mem_advice ha).2.2]]
    apply Improvement.filter_advice
    · intro i a hgreat hk _
      simp [hk, Improvement.not_small_of_great hgreat]
    · intro i a hsmall hk _
      simp [hk, hsmall]
    · intro i _ hsmall
      simp [hsmall]
  · exact fun more hmore => analyze_append_of_known hmore

/-- Two conversions that save the same, one run past the cache only, and later results. -/
theorem analyze_ranks_turns :
    let run (id : String) (cached : Bool) (time : Float) : BenchmarkResult :=
      ⟨id, id, .text, .number, 1, time, time, cached, 1, 0⟩
    let results := [run "b" false 10.0, run "a" true 4.0, run "b" true 4.0, run "c" false 1.0, run "a" false 10.0]
    let more := [run "a" false 99.0, run "b" true 99.0]
    let stats : CacheStats := ⟨0, 0, 0, 0.0, 500, []⟩
    let settings : CacheSettings := ⟨500, 1000, true⟩
    let summary := analyze results stats settings
    (∀ m ∈ more, hasRun results m.conversion m.cached = true) ∧
      summary.improvements.map (·.conversion) = ["b", "a"] ∧ IsRanking results summary.improvements ∧
      (summary.advice.filter (·.kind = .prioritizeCaching)).map (·.conversion) = [some "b", some "a"] ∧
      analyze (results ++ more) stats settings = summary := by
  intro run results more stats settings summary
  have hmore : ∀ m ∈ more, hasRun results m.conversion m.cached = true := by decide
  obtain ⟨hranking, -, -, -, -, hgreat, -, hsame⟩ := analyze_ranks results stats settings
  have hsorted : summary.improvements = (pairs results).map fun p =>
      ⟨p.2.conversion, p.2.name, improvement p.1 p.2⟩ := by
    apply List.mergeSort_of_pairwise
    decide +kernel
  refine ⟨hmore, ?_, hranking, ?_, hsame more hmore⟩
  · rw [hsorted]
    rfl
  · rw [hgreat, hsorted]
    decide +kernel

end FieldBridge

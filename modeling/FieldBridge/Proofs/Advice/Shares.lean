import FieldBridge.Proofs.Advice.Attribution
import FieldBridge.Proofs.Decimal.Precision

/-!
# How much is shared out

Lookups that no id has are shared out among the analyzed ids without a count, to each by the part
that its results have among those of such ids. Every share is rounded on its own: together they can
exceed what there is, by half a lookup for each share and by what floats cannot tell apart.
-/

namespace FieldBridge

open Decimal

/-! ## One share -/

/-- The count is rounded, and so is its product with the part, and then to a whole number. -/
theorem Analysis.shareOf_le {n k m : ℕ} (hn : n < 2 ^ 64) (hk : 0 < k) (hkm : k ≤ m) (hm : m < 2 ^ 64) :
    (shareOf n (Float.ofNat k / Float.ofNat m) : ℚ) ≤ n * (1 + 1 / 2 ^ 50) * (k / m) + 1 / 2 := by
  rcases Nat.eq_zero_or_pos n with rfl | hpos
  · rw [shareOf_zero]
    norm_num
  obtain ⟨a, ha, hna⟩ := HasValue.ofNat hpos hn
  obtain ⟨haleast, hamost⟩ := between_of_close hpos hn hna
  obtain ⟨q, hq, hqleast, hqmost, hpart⟩ := HasValue.part hk hkm hm
  have hqpos := hq.pos.le
  have hleast : 1 / 2 * (1 / 2 ^ 67) ≤ a * q := by gcongr
  have hmost : a * q ≤ 2 ^ 65 * 2 ^ 67 := by gcongr
  obtain ⟨p, hp, hap⟩ := ha.mul hq (.of_between (by linarith) (by linarith))
  calc (shareOf n (Float.ofNat k / Float.ofNat m) : ℚ)
      ≤ p + 1 / 2 := hp.floor64_round_le
    _ ≤ a * q * (1 + 1 / 2 ^ 53) + 1 / 2 := by
        gcongr
        exact hap.le
    _ ≤ n * (1 + 1 / 2 ^ 53) * (k / m * ((1 + 1 / 2 ^ 53) ^ 2 / (1 - 1 / 2 ^ 53))) * (1 + 1 / 2 ^ 53) + 1 / 2 := by
        have hcount := hna.le
        gcongr
    _ = n * ((1 + 1 / 2 ^ 53) ^ 4 / (1 - 1 / 2 ^ 53)) * (k / m) + 1 / 2 := by ring
    _ ≤ n * (1 + 1 / 2 ^ 50) * (k / m) + 1 / 2 := by
        gcongr
        norm_num

/-! ## All shares -/

/-- Every id of the list has some of `m` things, and no thing is had twice. -/
theorem Analysis.sum_shareOf_le {ids : List String} {part : String → ℕ} {n m : ℕ} (hn : n < 2 ^ 64) (hm : m < 2 ^ 64)
    (hpos : ∀ id ∈ ids, 0 < part id) (hsum : (ids.map part).sum ≤ m) :
    (ids.map fun id => shareOf n (Float.ofNat (part id) / Float.ofNat m)).sum ≤
      n + (ids.length * 2 ^ 49 + n) / 2 ^ 50 := by
  have hshares : ((ids.map fun id => shareOf n (Float.ofNat (part id) / Float.ofNat m)).sum : ℚ) ≤
      n * (1 + 1 / 2 ^ 50) * ((ids.map part).sum / m) + ids.length / 2 := by
    have hleast : ∀ id ∈ ids, part id ≤ m :=
      fun id hid => (List.le_sum_of_mem (List.mem_map_of_mem hid)).trans hsum
    clear hsum
    induction ids with
    | nil => simp
    | cons id ids ih =>
      have hone := shareOf_le hn (hpos id List.mem_cons_self) (hleast id List.mem_cons_self) hm
      have hrest := ih (fun i hi => hpos i (List.mem_cons_of_mem _ hi)) fun i hi => hleast i (List.mem_cons_of_mem _ hi)
      simp only [List.map_cons, List.sum_cons, List.length_cons]
      push_cast at hone hrest ⊢
      rw [add_div (part id : ℚ), mul_add]
      linarith
  have hwhole : ((ids.map part).sum / m : ℚ) ≤ 1 := div_le_one_of_le₀ (by exact_mod_cast hsum) (by positivity)
  have hbound : ((ids.map fun id => shareOf n (Float.ofNat (part id) / Float.ofNat m)).sum * 2 ^ 50 : ℚ) ≤
      n * 2 ^ 50 + (ids.length * 2 ^ 49 + n) := by
    have hmost : (n * (1 + 1 / 2 ^ 50) * ((ids.map part).sum / m) : ℚ) ≤ n * (1 + 1 / 2 ^ 50) :=
      mul_le_of_le_one_right (by positivity) hwhole
    linarith
  have hbound' : (ids.map fun id => shareOf n (Float.ofNat (part id) / Float.ofNat m)).sum * 2 ^ 50 ≤
      n * 2 ^ 50 + (ids.length * 2 ^ 49 + n) := by
    exact_mod_cast hbound
  omega

section
variable {c : Catalog} {results : List BenchmarkResult} {stats : CacheStats}

/-- The results of ids without a count. -/
def uncounted (results : List BenchmarkResult) (stats : CacheStats) : List BenchmarkResult :=
  results.filter fun r => !Keyed.contains r.conversion stats.byConversion

/-- How many of them are of one id. -/
def uncountedOf (results : List BenchmarkResult) (stats : CacheStats) (id : String) : ℕ :=
  ((uncounted results stats).filter (·.conversion == id)).length

theorem uncountedOf_pos {id : String} (h : id ∈ sharers c results stats) : 0 < uncountedOf results stats id := by
  obtain ⟨hanalyzed, hfree⟩ := List.mem_filter.mp h
  rw [conversion_analyses, mem_ids_pairs] at hanalyzed
  obtain ⟨r, hr, rfl, -⟩ := hasRun_iff.mp hanalyzed.1
  apply List.length_pos_of_mem
  exact List.mem_filter.mpr ⟨List.mem_filter.mpr ⟨hr, hfree⟩, beq_self_eq_true _⟩

theorem nodup_sharers : (sharers c results stats).Nodup := nodup_analyses.filter _

theorem sum_uncountedOf_le : ((sharers c results stats).map (uncountedOf results stats)).sum ≤
    (uncounted results stats).length :=
  sum_length_filter_le nodup_sharers BenchmarkResult.conversion (uncounted results stats)

theorem Analysis.fallback_eq {id : String} (h : id ∈ sharers c results stats) :
    let share := Float.ofNat (uncountedOf results stats id) / Float.ofNat (uncounted results stats).length
    fallback id results stats = ⟨shareOf (stats.hits - Keyed.total Lookups.hits stats.byConversion) share,
      shareOf (stats.misses - Keyed.total Lookups.misses stats.byConversion) share⟩ := by
  have hsome : (uncounted results stats).isEmpty = false := by
    rw [List.isEmpty_eq_false_iff]
    intro hnone
    have hpos := uncountedOf_pos h
    rw [uncountedOf, hnone] at hpos
    exact Nat.not_lt_zero _ hpos
  exact if_neg (Bool.eq_false_iff.mp hsome)

/-- What is read of hits or of misses is at most what all have of them, and the shares of the rest
exceed it by half of one at most, but for what floats cannot tell apart. -/
theorem sum_analyses_nearly_le (part : Analysis → ℕ) (f : Lookups → ℕ) (hf : ∀ a, part a = f ⟨a.hits, a.misses⟩)
    {n : ℕ} (hn : n < 2 ^ 64) (hresults : results.length < 2 ^ 64) (htotal : Keyed.total f stats.byConversion ≤ n)
    (hfallback : ∀ id ∈ sharers c results stats, f (Analysis.fallback id results stats) =
      Analysis.shareOf (n - Keyed.total f stats.byConversion)
        (Float.ofNat (uncountedOf results stats id) / Float.ofNat (uncounted results stats).length)) :
    ((analyses c results stats).map part).sum ≤ n +
      ((sharers c results stats).length * 2 ^ 49 + (n - Keyed.total f stats.byConversion)) / 2 ^ 50 := by
  have hread := sum_analyses_le c results stats part f hf
  rw [List.map_congr_left hfallback] at hread
  have hlength : (uncounted results stats).length < 2 ^ 64 := (List.length_filter_le _ _).trans_lt hresults
  have hshares := Analysis.sum_shareOf_le (n := n - Keyed.total f stats.byConversion) (by omega) hlength
    (fun _ => uncountedOf_pos) (sum_uncountedOf_le (c := c))
  omega

theorem sum_analyses_le_of_no_sharers (part : Analysis → ℕ) (f : Lookups → ℕ)
    (hf : ∀ a, part a = f ⟨a.hits, a.misses⟩) {n : ℕ} (htotal : Keyed.total f stats.byConversion ≤ n)
    (hnone : sharers c results stats = []) : ((analyses c results stats).map part).sum ≤ n := by
  have hread := sum_analyses_le c results stats part f hf
  rw [hnone] at hread
  exact hread.trans htotal

end

/-- **Lookups are shared out up to rounding.** When ids have no more lookups than there are, the hits
of all analyses exceed the hits of the cache by half of one at most for each analyzed id without a
count, and by one part in `2 ^ 50` of those that no id has, and so do the misses. Where every
analyzed id has a count they do not exceed them. -/
theorem shares_nearly_whole (c : Catalog) {results : List BenchmarkResult} {stats : CacheStats}
    (hresults : results.length < 2 ^ 64) (hhits : stats.hits < 2 ^ 64) (hmisses : stats.misses < 2 ^ 64)
    (hhits' : Keyed.total Lookups.hits stats.byConversion ≤ stats.hits)
    (hmisses' : Keyed.total Lookups.misses stats.byConversion ≤ stats.misses) :
    let hits := ((analyses c results stats).map (·.hits)).sum
    let misses := ((analyses c results stats).map (·.misses)).sum
    let sharing := (sharers c results stats).length
    hits ≤ stats.hits +
      (sharing * 2 ^ 49 + (stats.hits - Keyed.total Lookups.hits stats.byConversion)) / 2 ^ 50 ∧
    misses ≤ stats.misses +
      (sharing * 2 ^ 49 + (stats.misses - Keyed.total Lookups.misses stats.byConversion)) / 2 ^ 50 ∧
    (sharing = 0 → hits ≤ stats.hits ∧ misses ≤ stats.misses) := by
  intro hits misses sharing
  refine ⟨?_, ?_, ?_⟩
  · refine sum_analyses_nearly_le (·.hits) Lookups.hits (fun _ => rfl) hhits hresults hhits' ?_
    intro id hid
    rw [Analysis.fallback_eq hid]
  · refine sum_analyses_nearly_le (·.misses) Lookups.misses (fun _ => rfl) hmisses hresults hmisses' ?_
    intro id hid
    rw [Analysis.fallback_eq hid]
  · intro hnone
    have hnone := List.eq_nil_of_length_eq_zero hnone
    exact ⟨sum_analyses_le_of_no_sharers _ Lookups.hits (fun _ => rfl) hhits' hnone,
      sum_analyses_le_of_no_sharers _ Lookups.misses (fun _ => rfl) hmisses' hnone⟩

/-- One hit is shared out among two ids with as many results: each is given one half, rounded up. -/
theorem shares_nearly_whole_halves :
    let run (id : String) (cached : Bool) : BenchmarkResult := ⟨id, id, .text, .number, 1, 5.0, 5.0, cached, 1, 0⟩
    let results := [run "a" false, run "a" true, run "b" false, run "b" true]
    let stats : CacheStats := ⟨1, 0, 1, 1.0, 500, []⟩
    let as := analyses .empty results stats
    results.length < 2 ^ 64 ∧ stats.hits < 2 ^ 64 ∧ stats.misses < 2 ^ 64 ∧
      Keyed.total Lookups.hits stats.byConversion ≤ stats.hits ∧
      Keyed.total Lookups.misses stats.byConversion ≤ stats.misses ∧
      (as.map (·.hits)).sum = 2 ∧ (as.map (·.hits)).sum ≤ 2 ∧ (as.map (·.misses)).sum ≤ 1 := by
  intro run results stats as
  have hresults : results.length < 2 ^ 64 := by decide
  have hhits : stats.hits < 2 ^ 64 := by decide
  have hmisses : stats.misses < 2 ^ 64 := by decide
  have hhits' : Keyed.total Lookups.hits stats.byConversion ≤ stats.hits := by decide
  have hmisses' : Keyed.total Lookups.misses stats.byConversion ≤ stats.misses := by decide
  obtain ⟨hmost, hmost', -⟩ := shares_nearly_whole .empty hresults hhits hmisses hhits' hmisses'
  have hsharing : (sharers .empty results stats).length = 2 := by rfl
  rw [hsharing] at hmost hmost'
  exact ⟨hresults, hhits, hmisses, hhits', hmisses', by decide +kernel, hmost.trans (by decide), hmost'.trans (by decide)⟩

/-- It is not so that no more is shared out than there is. -/
theorem more_shared_than_there_is : ¬∀ (c : Catalog) (results : List BenchmarkResult) (stats : CacheStats),
    Keyed.total Lookups.hits stats.byConversion ≤ stats.hits →
    Keyed.total Lookups.misses stats.byConversion ≤ stats.misses →
      ((analyses c results stats).map (·.hits)).sum ≤ stats.hits ∧
      ((analyses c results stats).map (·.misses)).sum ≤ stats.misses := by
  intro hclaim
  let run (id : String) (cached : Bool) : BenchmarkResult := ⟨id, id, .text, .number, 1, 5.0, 5.0, cached, 1, 0⟩
  let results := [run "a" false, run "a" true, run "b" false, run "b" true]
  let stats : CacheStats := ⟨1, 0, 1, 1.0, 500, []⟩
  have htwo : ((analyses .empty results stats).map (·.hits)).sum = 2 := by decide +kernel
  have hone := (hclaim .empty results stats (by decide) (by decide)).1
  rw [htwo] at hone
  exact absurd hone (by decide)

end FieldBridge

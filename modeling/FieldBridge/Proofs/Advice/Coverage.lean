import FieldBridge.Advice.Analysis
import FieldBridge.Proofs.Benchmark.Traffic

/-!
# A full benchmark accounts for every conversion

A benchmark of all conversions counts the lookups of each one under its id, and its results
come in pairs, one pair for each id. An analysis finds these pairs again and reads the
counts. Nothing is left to be shared out among conversions without a count.
-/

namespace FieldBridge

/-! ## Counts are read, not shared out -/

namespace Analysis

theorem shareOf_zero (x : Float) : shareOf 0 x = 0 := by
  unfold shareOf
  have hmul : Float.ofNat 0 * x = .ofModel (.pack (.mul .binary64 (.zero .positive) x.toModel.unpack)) := rfl
  -- the product is a zero, or no number when the share is none or infinite
  have hproduct : Float.ofNat 0 * x = .ofModel (.pack .notANumber) ∨
      ∃ s, Float.ofNat 0 * x = .ofModel (.pack (.zero s)) := by
    rw [hmul]
    cases x.toModel.unpack with
    | notANumber => exact .inl rfl
    | infinity s => exact .inl rfl
    | zero s => exact .inr ⟨_, rfl⟩
    | finite s m e hm => exact .inr ⟨_, rfl⟩
  obtain h | ⟨s, h⟩ := hproduct
  · rw [h]
    decide
  · rw [h]
    cases s with
    | positive => decide +kernel
    | negative => decide +kernel

/-- All lookups were made under some id, so that nothing is left to share out. -/
theorem fallback_of_accounts {c : Cache} {log : List Lookup} (h : Accounts c log) (id : String)
    (results : List BenchmarkResult) : fallback id results c.stats = {} := by
  have hhits : c.stats.hits - c.stats.byConversion.foldr (fun e n => e.2.hits + n) 0 = 0 :=
    Nat.sub_eq_zero_of_le h.hits_sum.le
  have hmisses : c.stats.misses - c.stats.byConversion.foldr (fun e n => e.2.misses + n) 0 = 0 :=
    Nat.sub_eq_zero_of_le h.misses_sum.le
  unfold fallback
  dsimp only
  split
  · rfl
  · rw [hhits, hmisses, shareOf_zero]

theorem lookups_of_accounts {c : Cache} {log : List Lookup} (h : Accounts c log) (id : String)
    (results : List BenchmarkResult) : lookups id results c.stats = c.lookupsOf id := by
  unfold lookups Cache.lookupsOf
  rw [fallback_of_accounts h]
  rfl

end Analysis

/-! ## Results in pairs -/

/-- A result past the cache and one through it. -/
structure BothWays (p : BenchmarkResult × BenchmarkResult) : Prop where
  same : p.2.conversion = p.1.conversion
  without : p.1.cached = false
  cached : p.2.cached = true

def inPairs (ps : List (BenchmarkResult × BenchmarkResult)) : List BenchmarkResult := ps.flatMap fun p => [p.1, p.2]

theorem foldl_distinct {seen ids : List String} (h : (seen ++ ids).Nodup) :
    (ids.flatMap fun id => [id, id]).foldl (fun seen id => if seen.contains id then seen else seen ++ [id]) seen =
      seen ++ ids := by
  induction ids generalizing seen with
  | nil => simp
  | cons id ids ih =>
    have hfresh : id ∉ seen := by
      intro hid
      exact (List.nodup_append.mp h).2.2 id hid id List.mem_cons_self rfl
    have hnodup : (seen ++ [id] ++ ids).Nodup := by simpa using h
    have hrest := ih hnodup
    simpa [hfresh] using hrest

theorem find?_of_nodup {α : Type} {key : α → String} {as : List α} (hn : (as.map key).Nodup) {a : α} (ha : a ∈ as) :
    as.find? (key · == key a) = some a := by
  induction as with
  | nil => cases ha
  | cons b as ih =>
    obtain ⟨hfresh, hn⟩ := List.nodup_cons.mp hn
    by_cases hid : key b = key a
    · obtain rfl | ha := List.mem_cons.mp ha
      · simp
      · exact absurd (List.mem_map.mpr ⟨a, ha, hid.symm⟩) hfresh
    · obtain rfl | ha := List.mem_cons.mp ha
      · exact absurd rfl hid
      · simpa [hid] using ih hn ha

section
variable {ps : List (BenchmarkResult × BenchmarkResult)} (h : ∀ p ∈ ps, BothWays p)
include h

theorem marks_inPairs : (inPairs ps).map (fun r => (r.conversion, r.cached)) =
    (ps.map (·.1.conversion)).flatMap fun id => [(id, false), (id, true)] := by
  induction ps with
  | nil => rfl
  | cons p ps ih =>
    obtain ⟨hsame, hwithout, hcached⟩ := h p List.mem_cons_self
    have hrest := ih fun q hq => h q (List.mem_cons_of_mem _ hq)
    simp only [inPairs] at hrest ⊢
    simp [hrest, hsame, hwithout, hcached]

theorem conversion_inPairs :
    (inPairs ps).map (·.conversion) = (ps.map (·.1.conversion)).flatMap fun id => [id, id] := by
  have hmarks := congrArg (List.map Prod.fst) (marks_inPairs h)
  simpa [List.map_flatMap, Function.comp_def] using hmarks

theorem find?_inPairs (id : String) (cached : Bool) :
    (inPairs ps).find? (fun r => r.conversion == id && r.cached == cached) =
      (ps.find? (·.1.conversion == id)).map fun p => if cached then p.2 else p.1 := by
  induction ps with
  | nil => rfl
  | cons p ps ih =>
    obtain ⟨hsame, hwithout, hcached⟩ := h p List.mem_cons_self
    have hrest := ih fun q hq => h q (List.mem_cons_of_mem _ hq)
    simp only [inPairs] at hrest ⊢
    by_cases hid : p.1.conversion = id
    · cases cached <;> simp [hid, hsame, hwithout, hcached]
    · simp [hid, hsame, hrest]

/-- Results that come in pairs, one for each id, are paired as they came. -/
theorem pairs_inPairs (hn : (ps.map (·.1.conversion)).Nodup) : pairs (inPairs ps) = ps := by
  have hids : distinct ((inPairs ps).map (·.conversion)) = ps.map (·.1.conversion) := by
    rw [conversion_inPairs h, distinct, foldl_distinct hn]
    rfl
  unfold pairs
  rw [hids, List.filterMap_map]
  refine Eq.trans (List.filterMap_congr ?_) List.filterMap_some
  intro p hp
  simp only [Function.comp_apply, find?_inPairs h, find?_of_nodup hn hp]
  rfl

end

/-! ## The benchmark -/

namespace Benchmark

/-- Both runs of a conversion, whatever the cache is like. -/
theorem comparative_counted {c : Catalog} {t : Conversion} (ht : c.get? t.id = some t) {cache : Cache}
    (hr : cache.Reachable) {iterations : Nat} (hi : 1 ≤ iterations) (samples : Nat) :
    ∃ p after, comparative c cache t.id iterations samples = (.ok p, after) ∧ BothWays p ∧
      p.1.conversion = t.id ∧ after.Reachable ∧ ∀ id, (after.lookupsOf id).total =
        (cache.lookupsOf id).total + if id = t.id then iterations * samples else 0 := by
  obtain ⟨hruns, hcache⟩ := comparative_runs ht cache hi samples
  obtain ⟨l, hanswers, htotal⟩ := counted_answers t (comparativeSteps t iterations samples) cache.clearEntries
  rw [← hcache] at hanswers
  have hcounted := hanswers.congr (rfl : cache.books = cache.clearEntries.books) rfl
  rw [reduceOption_comparativeSteps, length_traffic] at htotal
  refine ⟨_, _, hruns, ⟨rfl, rfl, rfl⟩, rfl, ?_, ?_⟩
  · rw [hcache]
    exact hr.answers (.clearEntries :: (comparativeSteps t iterations samples).map t.ask)
  · intro id
    by_cases hid : id = t.id
    · rw [hid, hcounted.own, Lookups.total_plus, htotal, if_pos rfl]
    · unfold Cache.lookupsOf
      rw [hcounted.others id hid, if_neg hid, Nat.add_zero]

theorem comparativeEach_counted {c : Catalog} {ts : List Conversion} (hts : ∀ t ∈ ts, c.get? t.id = some t)
    (hn : (ts.map (·.id)).Nodup) {cache : Cache} (hr : cache.Reachable) {iterations : Nat} (hi : 1 ≤ iterations)
    (samples : Nat) :
    ∃ ps after, comparativeEach c iterations samples ts cache = (.ok (inPairs ps), after) ∧
      (∀ p ∈ ps, BothWays p) ∧ ps.map (·.1.conversion) = ts.map (·.id) ∧ after.Reachable ∧
      ∀ id, (after.lookupsOf id).total =
        (cache.lookupsOf id).total + if id ∈ ts.map (·.id) then iterations * samples else 0 := by
  induction ts generalizing cache with
  | nil => exact ⟨[], cache, rfl, by simp, rfl, hr, by simp⟩
  | cons t ts ih =>
    obtain ⟨hfresh, hn⟩ := List.nodup_cons.mp hn
    obtain ⟨p, middle, heq, hp, hid, hrm, hmiddle⟩ := comparative_counted (hts t List.mem_cons_self) hr hi samples
    obtain ⟨ps, after, heqs, hps, hids, hra, hafter⟩ := ih (fun u hu => hts u (List.mem_cons_of_mem _ hu)) hn hrm
    refine ⟨p :: ps, after, ?_, ?_, ?_, hra, ?_⟩
    · rw [comparativeEach, heq]
      simp only [heqs]
      rfl
    · rintro q hq
      obtain rfl | hq := List.mem_cons.mp hq
      · exact hp
      · exact hps q hq
    · simp [hid, hids]
    -- no id comes twice, so that each one is counted by its own benchmark alone
    · intro id
      rw [hafter, hmiddle]
      by_cases hne : id = t.id
      · simp [hne, hfresh]
      · simp [hne]

theorem ids_benchmarkable {c : Catalog} (hc : c.Orderly) :
    ((benchmarkable c).map (·.id)).Nodup ∧ ∀ t ∈ benchmarkable c, c.get? t.id = some t := by
  refine ⟨hc.ids.sublist (List.filter_sublist.map _), ?_⟩
  intro t ht
  exact hc.get?_iff.mpr ⟨List.mem_of_mem_filter ht, rfl⟩

end Benchmark

/-- **A full benchmark accounts for every conversion.** When nothing was counted before, it yields
two results for each conversion that is meant for it. The analysis of these results has one entry
for each of them, in the order in which they were registered, with all of its lookups. -/
theorem analyses_cover (ts : List Conversion) {cache : Cache} (hr : cache.Reachable)
    (hhits : cache.stats.hits = 0) (hmisses : cache.stats.misses = 0) {iterations : Nat} (hi : 1 ≤ iterations)
    (samples : Nat) :
    let c := Catalog.empty.offerAll ts
    let chosen := c.conversions.filter (·.benchmarkable)
    ∃ results after, Benchmark.all c cache iterations samples = (.ok results, after) ∧
      results.map (fun r => (r.conversion, r.cached)) = chosen.flatMap (fun t => [(t.id, false), (t.id, true)]) ∧
      (analyses c results after.stats).map (fun a => (a.conversion, a.usage, a.hits + a.misses, a.complexity)) =
        chosen.map fun t => (t.id, iterations * samples, iterations * samples, t.complexity.weight) := by
  intro c chosen
  have hc : c.Orderly := Catalog.orderly_empty.offerAll ts
  obtain ⟨hn, hfound⟩ := Benchmark.ids_benchmarkable hc
  obtain ⟨ps, after, heq, hps, hids, hra, htotal⟩ :=
    Benchmark.comparativeEach_counted hfound hn hr hi samples
  obtain ⟨log, hlog⟩ := hr.accounts
  obtain ⟨log', hlog'⟩ := hra.accounts
  refine ⟨inPairs ps, after, heq, ?_, ?_⟩
  · rw [marks_inPairs hps, hids, List.flatMap_map]
    rfl
  · have hread : ∀ t ∈ chosen, (Analysis.lookups t.id (inPairs ps) after.stats).total = iterations * samples := by
      intro t ht
      have hid : t.id ∈ chosen.map (·.id) := List.mem_map_of_mem ht
      rw [Analysis.lookups_of_accounts hlog', htotal, hlog.lookupsOf_eq_zero hhits hmisses]
      exact (congrArg (0 + ·) (if_pos hid)).trans (Nat.zero_add _)
    calc (analyses c (inPairs ps) after.stats).map (fun a => (a.conversion, a.usage, a.hits + a.misses, a.complexity))
        = (ps.map (·.1.conversion)).map fun id => (id, (Analysis.lookups id (inPairs ps) after.stats).total,
            (Analysis.lookups id (inPairs ps) after.stats).total, ((c.get? id).map (·.complexity.weight)).getD 1) := by
          rw [analyses, pairs_inPairs hps (hids ▸ hn), List.map_map, List.map_map]
          rfl
      _ = chosen.map fun t => (t.id, iterations * samples, iterations * samples, t.complexity.weight) := by
          rw [hids, List.map_map]
          apply List.map_congr_left
          intro t ht
          simp [hread t ht, hfound t ht]

/-- Two conversions, one of which is not meant for it, and a cache that holds something already and
whose results expire within an iteration. -/
theorem analyses_cover_tick :
    let tick : Conversion :=
      { id := "tick", source := .checkbox, target := .email, name := "Tick", description := "", impact := .low
        complexity := .medium, benchmarkable := true, sample := ⟨.bool true, .string "yes"⟩
        run := fun v _ =>
          match v with
          | .bool true => .ok (.string "yes")
          | _ => .error (.rejected "not ticked") }
    let tock : Conversion := { tick with id := "tock", source := .email, target := .checkbox, benchmarkable := false }
    let c : Catalog := Catalog.empty.offerAll [tick, tock]
    let requests : List (Request Failure) :=
      [.getOrCompute ⟨"shout", .string "a", .empty⟩ (.ok (.string "a!")), .resetStats]
    let clock : Clock := { pace := fun _ => 600 }
    let cache : Cache := (answers Cache.answer (.empty ⟨1, 1000, true⟩ clock) requests).2
    cache.size = 1 ∧ cache.Reachable ∧ cache.stats.hits = 0 ∧ cache.stats.misses = 0 ∧ 1 ≤ 2 ∧
      ∃ results after, Benchmark.all c cache 2 3 = (.ok results, after) ∧
        results.map (fun r => (r.conversion, r.cached)) = [("tick", false), ("tick", true)] ∧
        (analyses c results after.stats).map (fun a => (a.conversion, a.usage, a.hits + a.misses, a.complexity)) =
          [("tick", 6, 6, 2)] := by
  intro tick tock c requests clock cache
  have hr : cache.Reachable := ⟨⟨1, 1000, true⟩, clock, requests, by decide, rfl⟩
  have hchosen : c.conversions.filter (·.benchmarkable) = [tick] := by rfl
  obtain ⟨results, after, heq, hmarks, hanalyses⟩ := analyses_cover [tick, tock] hr rfl rfl (by decide : 1 ≤ 2) 3
  refine ⟨rfl, hr, rfl, rfl, by decide, results, after, heq, ?_, ?_⟩
  · rw [hmarks, hchosen]
    rfl
  · rw [hanalyses, hchosen]
    rfl

end FieldBridge

import FieldBridge.Proofs.Benchmark.Cost
import FieldBridge.Proofs.Conversion.Transparency

/-!
# Failures of a benchmark

A comparative benchmark drops all entries first, so that its cache is honest from then on
whatever it held before. An honest cache gives the outcome of the conversion itself, and
failures are counted alike past it and through it. None of them is ever stored.
-/

namespace FieldBridge

open Conversion

namespace Benchmark

section
variable {c : Catalog} {t : Conversion} {vs : List Json} {v : Json}

/-! ## Counting failures -/

theorem failures_cons (t : Conversion) (v : Json) (vs : List Json) :
    t.failures (v :: vs) = t.failures [v] + t.failures vs := by
  unfold failures
  rw [← List.singleton_append, List.countP_append]

theorem failures_ok {result : Json} (hrun : t.run v .empty = .ok result) : t.failures [v] = 0 := by
  simp [failures, Conversion.succeeds, hrun, Except.isOk, Except.toBool]

theorem failures_error {e : Failure} (hrun : t.run v .empty = .error e) : t.failures [v] = 1 := by
  simp [failures, Conversion.succeeds, hrun, Except.isOk, Except.toBool]

theorem step_failures (cached : Bool) (ht : c.get? t.id = some t) {state : Cache × Nat} (hh : Honest c state.1)
    (hv : v.IsNormal) :
    Honest c (step t cached state v).1 ∧ (step t cached state v).2 = state.2 + t.failures [v] := by
  unfold step
  cases cached with
  | false =>
    cases hrun : t.run v .empty with
    | ok result => simp [hh, failures_ok hrun]
    | error e => simp [hh, failures_error hrun]
  | true =>
    obtain ⟨hresult, hafter⟩ := hh.runCached ht ⟨v, hv⟩ ⟨.empty, rfl⟩
    dsimp only at hresult hafter ⊢
    generalize t.runCached state.1 v .empty = r at hresult hafter
    obtain ⟨outcome, after⟩ := r
    cases outcome with
    | ok result => simpa [failures_ok hresult.symm] using hafter
    | error e => simpa [failures_error hresult.symm] using hafter

theorem pass_failures (cached : Bool) (ht : c.get? t.id = some t) (state : Cache × Nat) (hh : Honest c state.1)
    (hvs : ∀ v ∈ vs, v.IsNormal) :
    Honest c (pass t cached vs state).1 ∧ (pass t cached vs state).2 = state.2 + t.failures vs := by
  unfold pass
  induction vs generalizing state with
  | nil => exact ⟨hh, rfl⟩
  | cons v vs ih =>
    obtain ⟨hhonest, hcount⟩ := step_failures cached ht hh (hvs v List.mem_cons_self)
    obtain ⟨hlast, hrest⟩ := ih _ hhonest fun u hu => hvs u (List.mem_cons_of_mem _ hu)
    refine ⟨hlast, ?_⟩
    rw [List.foldl_cons, hrest, hcount, failures_cons t v vs, Nat.add_assoc]

theorem lap_failures (cached : Bool) (ht : c.get? t.id = some t) {state : State} (hh : Honest c state.cache)
    (hvs : ∀ v ∈ vs, v.IsNormal) : Honest c (lap t cached vs state).cache ∧
      (lap t cached vs state).failures = state.failures + t.failures vs :=
  pass_failures cached ht (state.cache.look, state.failures) hh hvs

theorem iterate_lap_failures (cached : Bool) (ht : c.get? t.id = some t) {state : State} (hh : Honest c state.cache)
    (hvs : ∀ v ∈ vs, v.IsNormal) (n : Nat) : Honest c ((lap t cached vs)^[n] state).cache ∧
      ((lap t cached vs)^[n] state).failures = state.failures + n * t.failures vs := by
  induction n generalizing state with
  | zero => simp [hh]
  | succ n ih =>
    obtain ⟨hhonest, hcount⟩ := lap_failures cached ht hh hvs
    obtain ⟨hlast, hrest⟩ := ih hhonest
    rw [Function.iterate_succ_apply]
    refine ⟨hlast, ?_⟩
    rw [hrest, hcount]
    ring

theorem finish_failures (ht : c.get? t.id = some t) (r : BenchmarkRun) (cache : Cache)
    (hh : Honest c (start r cache).cache) :
    Honest c (finish t r cache).cache ∧ (finish t r cache).failures = r.iterations * failing t r.samples := by
  have hnormal : ∀ v ∈ t.source.samples r.samples, v.IsNormal := fun v => Kind.isNormal_of_mem_samples
  have hcount := iterate_lap_failures r.cached ht hh hnormal r.iterations
  rwa [show (start r cache).failures = 0 from rfl, Nat.zero_add] at hcount

/-! ## What is stored -/

theorem mem_entries_answers {steps : List (Option Json)} {cache : Cache} {p : String × CacheEntry}
    (hp : p ∈ (answers Cache.answer cache (steps.map t.ask)).2.entries) :
    p ∈ cache.entries ∨ ∃ v ∈ steps.reduceOption, t.succeeds v = true ∧ p.1 = (t.call v).key := by
  induction steps generalizing cache with
  | nil => exact .inl hp
  | cons step steps ih =>
    cases step with
    | none =>
      rcases ih hp with hold | hasked
      · exact .inl hold
      · exact .inr hasked
    | some v =>
      rw [List.reduceOption_cons_of_some]
      rcases ih hp with hp | ⟨u, hu, hs, hkey⟩
      · rcases Cache.mem_entries_getOrCompute cache hp with hp | ⟨hs, hkey⟩
        · exact .inl hp
        · exact .inr ⟨v, List.mem_cons_self, hs, hkey⟩
      · exact .inr ⟨u, List.mem_cons_of_mem _ hu, hs, hkey⟩

theorem find?_failing {iterations samples : Nat} {cache : Cache} (hempty : cache.entries = []) (hv : v.IsNormal)
    (hfails : t.succeeds v = false) (o : Options) :
    (answers Cache.answer cache ((comparativeSteps t iterations samples).map t.ask)).2.find? (cacheKey t.id v o) =
      none := by
  rw [Cache.find?_eq_none_iff]
  intro p hp hkey
  rcases mem_entries_answers (List.mem_reverse.mp hp) with hold | ⟨u, hu, hs, hcall⟩
  · rw [hempty] at hold
    cases hold
  · -- the key of a stored result tells the value that was converted, and that one did not fail
    have hsame := (cacheKey_eq_iff_normalize.mp (hkey.symm.trans hcall)).2.1
    rw [reduceOption_comparativeSteps] at hu
    have huv : v = u := by
      have hu := isNormal_of_mem_traffic hu
      rwa [show (t.call u).value = u from rfl, hv, hu] at hsame
    rw [huv, hs] at hfails
    cases hfails

end

/-- What a comparative benchmark says about failures: as many with the cache as without it, and none
is held under any options. -/
structure Failures (t : Conversion) (iterations samples : Nat) (without cached : BenchmarkResult) (after : Cache) :
    Prop where
  without : without.failures = iterations * failing t samples
  cached : cached.failures = iterations * failing t samples
  forgotten : ∀ v ∈ t.source.samples samples, t.succeeds v = false →
    ∀ options, after.find? (cacheKey t.id v options) = none

/-- **A cache neither hides nor repeats a failure.** Whatever the cache held before and however it is
set up, both runs of a comparative benchmark count each sample that fails once in every iteration. -/
theorem comparative_failures (ts : List Conversion) {t : Conversion}
    (ht : t ∈ (Catalog.empty.offerAll ts).conversions) (cache : Cache) {iterations : Nat}
    (hi : 1 ≤ iterations) (samples : Nat) :
    ∃ without cached after, comparative (Catalog.empty.offerAll ts) cache t.id iterations samples =
      (.ok (without, cached), after) ∧ Failures t iterations samples without cached after := by
  have hc : (Catalog.empty.offerAll ts).Indexed := (Catalog.orderly_empty.offerAll ts).toIndexed
  have hget : (Catalog.empty.offerAll ts).get? t.id = some t := hc.get?_iff.mpr ⟨ht, rfl⟩
  have hcleared : Honest (Catalog.empty.offerAll ts) cache.clearEntries := fun p hp => absurd hp List.not_mem_nil
  obtain ⟨hruns, hcache⟩ := comparative_runs hget cache hi samples
  obtain ⟨hleft, hwithout⟩ := finish_failures hget ⟨t.id, iterations, samples, false⟩ cache hcleared
  refine ⟨_, _, _, hruns, hwithout, ?_, ?_⟩
  · exact (finish_failures hget ⟨t.id, iterations, samples, true⟩ _ hleft).2
  · intro v hv hfails options
    rw [hcache]
    exact find?_failing rfl (Kind.isNormal_of_mem_samples hv) hfails options

/-- A sample that fails, and a cache that was given a result for it by hand and lets nothing live. -/
theorem comparative_failures_ticks :
    let tick : Conversion :=
      { id := "tick", source := .checkbox, target := .email, name := "Tick", description := "", impact := .low
        complexity := .low, benchmarkable := true, sample := ⟨.bool true, .string "yes"⟩
        run := fun v _ =>
          match v with
          | .bool true => .ok (.string "yes")
          | _ => .error (.rejected "not ticked") }
    let c : Catalog := Catalog.empty.offerAll [tick]
    let clock : Clock := { pace := fun _ => 200 }
    let cache : Cache := Cache.set (.empty ⟨1, 0, true⟩ clock) "tick" (.bool false) .empty (.string "no") (some 1000)
    tick ∈ c.conversions ∧ 1 ≤ 2 ∧ failing tick 3 = 1 ∧
      (cache.get "tick" (.bool false) .empty).1 = some (.string "no") ∧
      ∃ without cached after, comparative c cache tick.id 2 3 = (.ok (without, cached), after) ∧
        Failures tick 2 3 without cached after := by
  intro tick c clock cache
  have ht : tick ∈ c.conversions := List.mem_singleton_self tick
  have hfailing : failing tick 3 = 1 := by decide
  have hheld : (cache.get "tick" (.bool false) .empty).1 = some (.string "no") := by decide
  exact ⟨ht, by decide, hfailing, hheld, comparative_failures [tick] ht cache (by decide) 3⟩

end Benchmark

end FieldBridge

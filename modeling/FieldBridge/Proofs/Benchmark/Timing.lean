import FieldBridge.Proofs.Benchmark.Course
import FieldBridge.Proofs.Cache.Timeless

/-!
# Benchmarks in the course of time

How long lookups take decides which entries have expired, so a plan leaves the cache that
the same runs leave in the same course of time. Where no lifetime runs out, any course of
time leaves the same, apart from the times.
-/

namespace FieldBridge

/-- What runs yield and leave, without any time. -/
def Benchmark.timeless (x : Except Error (List BenchmarkResult) × Cache) :
    Except Error (List BenchmarkResult) × Cache :=
  (x.1.map (·.map BenchmarkResult.untimed), x.2.timeless)

namespace Benchmark

/-! ## Time goes on -/

theorem step_precedes (t : Conversion) (cached : Bool) (state : Cache × Nat) (v : Json) :
    state.1.clock.now ≤ (step t cached state v).1.clock.now := by
  rw [step_fst]
  cases cached with
  | false => exact Nat.le_refl _
  | true => exact (state.1.precedes_answer _).now

theorem finish_precedes (t : Conversion) (r : BenchmarkRun) (cache : Cache) :
    cache.clock.now ≤ (finish t r cache).cache.clock.now := by
  have hstart : (start r cache).cache.clock = cache.clock := by
    unfold start
    cases r.cached <;> rfl
  rw [← hstart, finish_cache]
  exact (Cache.precedes_answers _ _).now

theorem inTurn_precedes (c : Catalog) (runs : List BenchmarkRun) (cache : Cache) :
    cache.clock.now ≤ (inTurn c runs cache).2.clock.now := by
  induction runs generalizing cache with
  | nil => exact Nat.le_refl _
  | cons r runs ih =>
    rw [inTurn]
    obtain ⟨-, hrun⟩ | ⟨t, -, -, hrun⟩ := run_cases c r
    · rw [hrun]
    · rw [hrun]
      exact Nat.le_trans (finish_precedes t r cache) (ih _)

/-! ## Two courses of time -/

/-- Two runs on their way agree, unless it is later than `s` or `s'` with one of them. -/
def AgreeUntil (s s' : Nat) (x y : Cache × Nat) : Prop :=
  x.1.clock.now ≤ s → y.1.clock.now ≤ s' → Cache.Agree s s' x.1 y.1 ∧ x.2 = y.2

section
variable {s s' : Nat}

theorem AgreeUntil.look {x y : Cache × Nat} (h : AgreeUntil s s' x y) :
    AgreeUntil s s' (x.1.look, x.2) (y.1.look, y.2) := by
  intro hs hs'
  obtain ⟨hagree, hfailures⟩ := h (Nat.le_trans (Clock.now_le_look _) hs) (Nat.le_trans (Clock.now_le_look _) hs')
  exact ⟨hagree.look, hfailures⟩

theorem AgreeUntil.step {x y : Cache × Nat} (h : AgreeUntil s s' x y) (t : Conversion) (cached : Bool) (v : Json) :
    AgreeUntil s s' (step t cached x v) (step t cached y v) := by
  intro hs hs'
  obtain ⟨hagree, hfailures⟩ :=
    h (Nat.le_trans (step_precedes t cached x v) hs) (Nat.le_trans (step_precedes t cached y v) hs')
  obtain ⟨a, failures⟩ := x
  obtain ⟨b, _⟩ := y
  cases hfailures
  cases cached with
  | false =>
    unfold Benchmark.step
    cases t.run v .empty with
    | ok r => exact ⟨hagree, rfl⟩
    | error e => exact ⟨hagree, rfl⟩
  | true =>
    rw [step_fst] at hs hs'
    have hboth := hagree.getOrCompute t.id v .empty (fun _ => t.run v .empty) hs hs'
    unfold Benchmark.step Conversion.runCached
    dsimp only at hboth ⊢
    generalize a.getOrCompute t.id v .empty (fun _ => t.run v .empty) = left at hboth
    generalize b.getOrCompute t.id v .empty (fun _ => t.run v .empty) = right at hboth
    obtain ⟨outcome, a'⟩ := left
    obtain ⟨outcome', b'⟩ := right
    obtain ⟨rfl, hafter⟩ := hboth
    cases outcome with
    | ok r => exact ⟨hafter, rfl⟩
    | error e => exact ⟨hafter, rfl⟩

theorem start_agree {a b : Cache} (h : Cache.Agree s s' a b) (r : BenchmarkRun) :
    Cache.Agree s s' (start r a).cache (start r b).cache := by
  unfold start
  cases r.cached with
  | true => exact h
  | false => exact h.clearEntries

theorem finish_agree {t : Conversion} {r : BenchmarkRun} {a b : Cache}
    (h : Cache.Agree s s' (start r a).cache (start r b).cache) :
    AgreeUntil s s' ((finish t r a).cache, (finish t r a).failures)
      ((finish t r b).cache, (finish t r b).failures) :=
  iterate_lap_keeps (R := AgreeUntil s s') (fun _ _ h => h.look) (fun v _ _ _ h => h.step t r.cached v) r.iterations
    fun _ _ => ⟨h, rfl⟩

end

variable {c : Catalog} {s s' : Nat} {a b : Cache}

/-- Runs of which the first may start from caches that agree. -/
theorem inTurn_timeless (htimes : a.timeless = b.timeless) {runs : List BenchmarkRun}
    (hfirst : ∀ r ∈ runs.head?, Cache.Agree s s' (start r a).cache (start r b).cache)
    (hs : (inTurn c runs a).2.clock.now ≤ s) (hs' : (inTurn c runs b).2.clock.now ≤ s') :
    timeless (inTurn c runs a) = timeless (inTurn c runs b) := by
  induction runs generalizing a b with
  | nil => exact congrArg (Prod.mk _) htimes
  | cons r runs ih =>
    have hstart := hfirst r rfl
    rw [inTurn] at hs hs' ⊢
    rw [inTurn]
    obtain ⟨-, hrun⟩ | ⟨t, -, -, hrun⟩ := run_cases c r
    · rw [hrun, hrun]
      exact congrArg (Prod.mk _) htimes
    · rw [hrun] at hs hs' ⊢
      rw [hrun]
      dsimp only at hs hs' ⊢
      obtain ⟨hfinish, hfailures⟩ := finish_agree (t := t) hstart (Nat.le_trans (inTurn_precedes c runs _) hs)
        (Nat.le_trans (inTurn_precedes c runs _) hs')
      dsimp only at hfinish hfailures
      have hone : (measured r t (finish t r a)).untimed = (measured r t (finish t r b)).untimed := by
        simp only [measured, BenchmarkResult.untimed, hfailures]
      obtain ⟨houtcome, hcache⟩ := Prod.mk.inj (ih hfinish.timeless (fun r' _ => start_agree hfinish r') hs hs')
      simp only [timeless, except_map_cons] at houtcome hcache ⊢
      rw [houtcome, hcache, hone]

end Benchmark

/-! ## A plan and the calls it stands for -/

namespace Plan

/-- A plan does what runs do that are called directly. In the same course of time it yields the same
results and leaves the same cache. In another one, from a cache that differs in nothing but times,
this holds apart from the times, as long as what is stored meanwhile does not expire. -/
structure Performs (c : Catalog) (p : Plan) (direct : Cache → Except Error (List BenchmarkResult) × Cache)
    (cache : Cache) : Prop where
  same : (p.perform c false cache).outcome = (direct cache).1 ∧ (p.perform c false cache).cache = (direct cache).2
  timeless : ∀ other, other.timeless = cache.timeless →
    (p.perform c false cache).cache.clock.now - cache.clock.now < cache.settings.ttl →
    (direct other).2.clock.now - other.clock.now < other.settings.ttl →
    (p.perform c false cache).outcome.map (·.map BenchmarkResult.untimed) =
        (direct other).1.map (·.map BenchmarkResult.untimed) ∧
      (p.perform c false cache).cache.timeless = (direct other).2.timeless

/-- A plan drops what the cache holds before it asks for anything, so nothing older can expire. -/
theorem performs_of_inTurn {c : Catalog} {p : Plan} {direct : Cache → Except Error (List BenchmarkResult) × Cache}
    (hdirect : ∀ cache, Benchmark.inTurn c p cache = direct cache) (hpast : ∀ r ∈ p.head?, r.cached = false)
    (cache : Cache) : Performs c p direct cache := by
  have hplan (cache : Cache) : (p.perform c false cache).outcome = (direct cache).1 ∧
      (p.perform c false cache).cache = (direct cache).2 := by
    rw [← hdirect, ← perform_inTurn]
    exact ⟨rfl, rfl⟩
  refine ⟨hplan cache, ?_⟩
  intro other htimes hleft hright
  rw [(hplan cache).2] at hleft ⊢
  rw [(hplan cache).1]
  have hfirst : ∀ r ∈ p.head?, Cache.Agree (direct cache).2.clock.now (direct other).2.clock.now
      (Benchmark.start r cache).cache (Benchmark.start r other).cache := by
    intro r hr
    simp only [Benchmark.start, hpast r hr]
    exact ⟨congrArg Cache.clearEntries htimes.symm, ⟨List.forall_mem_nil _, hleft⟩, ⟨List.forall_mem_nil _, hright⟩⟩
  have htimeless := Benchmark.inTurn_timeless htimes.symm hfirst (Nat.le_of_eq (by rw [hdirect]))
    (Nat.le_of_eq (by rw [hdirect]))
  rw [hdirect, hdirect] at htimeless
  exact Prod.mk.inj htimeless

/-- Carried out without being cancelled, the plan of a benchmark does what its runs do one call after
another. -/
theorem perform_synchronous (c : Catalog) (cache : Cache) (iterations samples : Nat) :
    (Plan.all c iterations samples).Performs c (Benchmark.all c · iterations samples) cache ∧
      ∀ id, (Plan.comparative id iterations samples).Performs c (fun cache =>
        let (pair, after) := Benchmark.comparative c cache id iterations samples
        (pair.map fun results => [results.1, results.2], after)) cache := by
  constructor
  · refine performs_of_inTurn (Benchmark.all_inTurn c · iterations samples) ?_ cache
    intro r hr
    unfold Plan.all at hr
    cases hts : Benchmark.benchmarkable c with
    | nil => simp [hts] at hr
    | cons t ts =>
      obtain rfl : _ = r := by simpa [hts, comparative] using hr
      rfl
  · intro id
    refine performs_of_inTurn (Benchmark.comparative_inTurn c · id iterations samples) ?_ cache
    intro r hr
    obtain rfl : _ = r := by simpa [comparative] using hr
    rfl

/-- Two clocks, one with an even and one with a growing pace, and a cache that is too small. -/
theorem perform_synchronous_paced :
    let tick : Conversion :=
      { id := "tick", source := .checkbox, target := .email, name := "Tick", description := "", impact := .low
        complexity := .low, benchmarkable := true, sample := ⟨.bool true, .string "yes"⟩
        run := fun v _ => .ok (.string (if v == .bool true then "yes" else "no")) }
    let c : Catalog := Catalog.empty.offerAll [tick]
    let even : Cache := .empty ⟨1, 1000, true⟩ { pace := fun _ => 10 }
    let growing : Cache := .empty ⟨1, 1000, true⟩ { pace := id }
    growing.timeless = even.timeless ∧
      ((Plan.all c 2 3).perform c false even).cache.clock.now - even.clock.now < even.settings.ttl ∧
      (Benchmark.all c growing 2 3).2.clock.now - growing.clock.now < growing.settings.ttl ∧
      ((Plan.all c 2 3).perform c false even).outcome.map (·.map BenchmarkResult.untimed) =
        (Benchmark.all c growing 2 3).1.map (·.map BenchmarkResult.untimed) ∧
      ((Plan.all c 2 3).perform c false even).cache.timeless = (Benchmark.all c growing 2 3).2.timeless := by
  intro tick c even growing
  have htimes : growing.timeless = even.timeless := rfl
  have heven : ((Plan.all c 2 3).perform c false even).cache.clock.now - even.clock.now < even.settings.ttl := by
    decide +kernel
  have hgrowing : (Benchmark.all c growing 2 3).2.clock.now - growing.clock.now < growing.settings.ttl := by
    decide +kernel
  exact ⟨htimes, heven, hgrowing, (perform_synchronous c even 2 3).1.timeless growing htimes heven hgrowing⟩

end Plan

end FieldBridge

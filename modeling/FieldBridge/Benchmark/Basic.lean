import FieldBridge.Benchmark.Samples
import FieldBridge.Conversion.Apply

/-!
# Benchmarks

A run converts the samples of a conversion's source kind over and over, through the
cache or past it, and counts the failures. Each iteration is timed by the clock that the
cache goes by, so that entries grow older while it lasts.
-/

namespace FieldBridge

structure BenchmarkRun where
  conversion : String
  iterations : Nat
  samples : Nat
  cached : Bool
  deriving DecidableEq, Repr

structure BenchmarkResult where
  conversion : String
  name : String
  source : Kind
  target : Kind
  iterations : Nat
  /-- in milliseconds, over all iterations -/
  totalTime : Float
  averageTime : Float
  cached : Bool
  samples : Nat
  failures : Nat

namespace Benchmark

/-- Converts one sample and counts a failure. -/
def step (t : Conversion) (cached : Bool) (state : Cache × Nat) (sample : Json) : Cache × Nat :=
  let (outcome, cache) :=
    if cached then t.runCached state.1 sample .empty else (t.run sample .empty, state.1)
  match outcome with
  | .ok _ => (cache, state.2)
  | .error _ => (cache, state.2 + 1)

def pass (t : Conversion) (cached : Bool) (samples : List Json) (state : Cache × Nat) : Cache × Nat :=
  samples.foldl (step t cached) state

/-- A run on its way: the cache, how many samples have failed, and the milliseconds that the
iterations have taken. -/
structure State where
  cache : Cache
  failures : Nat := 0
  time : Float := 0.0

/-- One iteration, between two looks at the clock. -/
def lap (t : Conversion) (cached : Bool) (samples : List Json) (state : State) : State :=
  let begun := state.cache.look
  let (cache, failures) := pass t cached samples (begun, state.failures)
  let ended := cache.look
  { cache := ended, failures := failures
    time := state.time + Nanoseconds.milliseconds (ended.clock.now - begun.clock.now) }

/-- What is told after so many iterations, and why the run ends there if it does. -/
abbrev Watch (α : Type) := Nat → List α × Option Error

/-- Nothing is told, and nothing ends the run. -/
def unwatched : Watch Empty := fun _ => ([], none)

/-- Iterations one after another, behind those that were made before: what is told on the way, why
they end early if they do, and what they leave. -/
def iterate {α : Type} (t : Conversion) (cached : Bool) (samples : List Json) (watch : Watch α) :
    Nat → Nat → State → (List α × Option Error) × State
  | 0, _, state => (([], none), state)
  | n + 1, made, state =>
    let state := lap t cached samples state
    match watch (made + 1) with
    | (told, some e) => ((told, some e), state)
    | (told, none) =>
      let ((more, ended), state) := iterate t cached samples watch n (made + 1) state
      ((told ++ more, ended), state)

/-- The result of a run that was made to its end. -/
def measured (r : BenchmarkRun) (t : Conversion) (state : State) : BenchmarkResult :=
  { conversion := t.id, name := t.name, source := t.source, target := t.target, iterations := r.iterations
    totalTime := state.time, averageTime := state.time / Float.ofNat r.iterations, cached := r.cached
    samples := r.samples, failures := state.failures }

/-- What a run starts from: past the cache, the cache's entries are dropped and its counters kept. -/
def start (r : BenchmarkRun) (cache : Cache) : State := { cache := if r.cached then cache else cache.clearEntries }

/-- One run, with what is told on the way. -/
def execute {α : Type} (c : Catalog) (watch : Watch α) (cache : Cache) (r : BenchmarkRun) :
    List α × Except Error BenchmarkResult × Cache :=
  if r.iterations = 0 then ([], .error (.noIterations r.conversion), cache)
  else
    match c.get? r.conversion with
    | none => ([], .error (.conversionNotFound r.conversion), cache)
    | some t =>
      match iterate t r.cached (t.source.samples r.samples) watch r.iterations 0 (start r cache) with
      | ((told, some e), state) => (told, .error e, state.cache)
      | ((told, none), state) => (told, .ok (measured r t state), state.cache)

def run (c : Catalog) (cache : Cache) (r : BenchmarkRun) : Except Error BenchmarkResult × Cache :=
  (execute c unwatched cache r).2

/-- A run past the cache and then one through it. -/
def comparative (c : Catalog) (cache : Cache) (id : String) (iterations samples : Nat) :
    Except Error (BenchmarkResult × BenchmarkResult) × Cache :=
  match run c cache ⟨id, iterations, samples, false⟩ with
  | (.error e, cache) => (.error e, cache)
  | (.ok without, cache) =>
    match run c cache ⟨id, iterations, samples, true⟩ with
    | (.error e, cache) => (.error e, cache)
    | (.ok cached, cache) => (.ok (without, cached), cache)

/-- Comparative runs of conversions, one after another. -/
def comparativeEach (c : Catalog) (iterations samples : Nat) :
    List Conversion → Cache → Except Error (List BenchmarkResult) × Cache
  | [], cache => (.ok [], cache)
  | t :: rest, cache =>
    match comparative c cache t.id iterations samples with
    | (.error e, cache) => (.error e, cache)
    | (.ok (without, cached), cache) =>
      let (results, cache) := comparativeEach c iterations samples rest cache
      (results.map fun results => without :: cached :: results, cache)

def benchmarkable (c : Catalog) : List Conversion := c.conversions.filter (·.benchmarkable)

/-- Comparative runs of all conversions that are meant for it. -/
def all (c : Catalog) (cache : Cache) (iterations samples : Nat) : Except Error (List BenchmarkResult) × Cache :=
  comparativeEach c iterations samples (benchmarkable c) cache

end Benchmark

/-- The percentage of the average time that the cache saves: negative when the run through the
cache was slower, 0 when the other took no time. -/
def improvement (without cached : BenchmarkResult) : Float :=
  if without.averageTime <= 0.0 then 0.0
  else (without.averageTime - cached.averageTime) / without.averageTime * 100.0

end FieldBridge

import FieldBridge.Benchmark.Basic

/-!
# Plans of benchmark runs

A plan is carried out run by run, telling its progress. It stops at the first run that
fails. Whether it was cancelled is looked at before each run and after each iteration.
-/

namespace FieldBridge

abbrev Plan := List BenchmarkRun

namespace Plan

/-- A run past the cache and one through it. -/
def comparative (id : String) (iterations samples : Nat) : Plan :=
  [⟨id, iterations, samples, false⟩, ⟨id, iterations, samples, true⟩]

def all (c : Catalog) (iterations samples : Nat) : Plan :=
  (Benchmark.benchmarkable c).flatMap fun t => comparative t.id iterations samples

def totalIterations (p : Plan) : Nat := p.foldr (fun r n => r.iterations + n) 0

end Plan

/-- What a plan tells while it is carried out. Runs are counted from 0. -/
inductive Progress where
  | started (run total : Nat) (conversion : String) (cached : Bool)
  | iteration (run completed iterations : Nat)
  | finished (run : Nat) (result : BenchmarkResult)

/-- The course of a plan: its progress, what came of it, and the cache afterwards. -/
structure Course where
  progress : List Progress
  outcome : Except Error (List BenchmarkResult)
  cache : Cache

namespace Plan

/-- Tells each iteration of a run, and ends the run after one by which the plan was cancelled. -/
def watch (cancelled : Nat → Bool) (number total iterations : Nat) : Benchmark.Watch Progress := fun completed =>
  ([.iteration number completed iterations],
    if cancelled completed then some (.cancelled number total) else none)

/-- Carries out runs, of which the first has the given number. `cancelled` says for each run whether
the plan was cancelled by the time that so many of its iterations were made. -/
def carryOut (c : Catalog) (cancelled : Nat → Nat → Bool) (total : Nat) :
    Nat → List BenchmarkRun → Cache → Course
  | _, [], cache => ⟨[], .ok [], cache⟩
  | number, r :: rest, cache =>
    if cancelled number 0 then ⟨[], .error (.cancelled number total), cache⟩
    else
      let started := Progress.started number total r.conversion r.cached
      match Benchmark.execute c (watch (cancelled number) number total r.iterations) cache r with
      | (told, .error e, cache) => ⟨started :: told, .error e, cache⟩
      | (told, .ok result, cache) =>
        let more := carryOut c cancelled total (number + 1) rest cache
        { progress := started :: told ++ .finished number result :: more.progress
          outcome := more.outcome.map (result :: ·)
          cache := more.cache }

/-- Carries out a plan that is cancelled before its start or not at all. -/
def perform (c : Catalog) (cancelled : Bool) (p : Plan) (cache : Cache) : Course :=
  carryOut c (fun _ _ => cancelled) p.length 0 p cache

end Plan

end FieldBridge

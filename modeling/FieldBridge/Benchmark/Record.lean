import FieldBridge.Benchmark.Basic
import FieldBridge.Field.Record

/-!
# Benchmarks in documents
-/

namespace FieldBridge

open Record

instance : Record BenchmarkRun where
  encode r := .object (member "transformationId" r.conversion ++ member "iterations" r.iterations ++
    member "sampleCount" r.samples ++ member "withCache" r.cached)
  decode? d := do
    match ← d.slots? [slot "transformationId", slot "iterations", slot "sampleCount", slot "withCache"] with
    | [conversion, iterations, samples, cached] =>
      some ⟨← needed conversion, ← needed iterations, ← needed samples, ← needed cached⟩
    | _ => none

instance : Record BenchmarkResult where
  encode r := .object (member "transformationId" r.conversion ++ member "transformationName" r.name ++
    member "sourceKind" r.source ++ member "targetKind" r.target ++ member "iterations" r.iterations ++
    member "totalTimeMs" r.totalTime ++ member "averageTimeMs" r.averageTime ++ member "withCache" r.cached ++
    member "sampleCount" r.samples ++ member "failureCount" r.failures)
  decode? d := do
    match ← d.slots? [slot "transformationId", slot "transformationName", slot "sourceKind", slot "targetKind",
        slot "iterations", slot "totalTimeMs", slot "averageTimeMs", slot "withCache", slot "sampleCount",
        lastSlot "failureCount"] with
    | [conversion, name, source, target, iterations, totalTime, averageTime, cached, samples, failures] =>
      some ⟨← needed conversion, ← needed name, ← needed source, ← needed target, ← needed iterations,
        ← needed totalTime, ← needed averageTime, ← needed cached, ← needed samples, ← orElse 0 failures⟩
    | _ => none

end FieldBridge

import FieldBridge.Configuration.Basic
import FieldBridge.Document.Record

/-!
# Configurations in documents

Whatever a document leaves out has its default.
-/

namespace FieldBridge

open Record

instance : Record CacheSection where
  encode c := .object (member "capacity" c.capacity ++ member "ttl_secs" c.ttlSeconds ++ member "enabled" c.enabled)
  decode? d := do
    let standard : CacheSection := {}
    match ← d.slots? [lastSlot "capacity", lastSlot "ttl_secs", lastSlot "enabled"] with
    | [capacity, ttl, enabled] =>
      some ⟨← orElse standard.capacity capacity, ← orElse standard.ttlSeconds ttl, ← orElse standard.enabled enabled⟩
    | _ => none

instance : Record BenchmarkSection where
  encode b := .object (member "iterations" b.iterations ++ member "sample_count" b.sampleCount)
  decode? d := do
    let standard : BenchmarkSection := {}
    match ← d.slots? [lastSlot "iterations", lastSlot "sample_count"] with
    | [iterations, samples] => some ⟨← orElse standard.iterations iterations, ← orElse standard.sampleCount samples⟩
    | _ => none

instance : Record OutputSection where
  encode o := .object (member "format" o.format ++ member "color" o.color ++ member "progress" o.progress)
  decode? d := do
    let standard : OutputSection := {}
    match ← d.slots? [lastSlot "format", lastSlot "color", lastSlot "progress"] with
    | [format, color, progress] =>
      some ⟨← orElse standard.format format, ← orElse standard.color color, ← orElse standard.progress progress⟩
    | _ => none

instance : Record LoggingSection where
  encode l := .object (member "level" l.level ++ member "format" l.format ++ memberOrNull "file" l.file)
  decode? d := do
    let standard : LoggingSection := {}
    match ← d.slots? [lastSlot "level", lastSlot "format", lastSlot "file"] with
    | [level, format, file] => some ⟨← orElse standard.level level, ← orElse standard.format format, ← ifAny file⟩
    | _ => none

instance : Record Configuration where
  encode c := .object (member "cache" c.cache ++ member "benchmark" c.benchmark ++ member "output" c.output ++
    member "logging" c.logging)
  decode? d := do
    match ← d.slots? [lastSlot "cache", lastSlot "benchmark", lastSlot "output", lastSlot "logging"] with
    | [cache, benchmark, output, logging] =>
      some ⟨← orElse {} cache, ← orElse {} benchmark, ← orElse {} output, ← orElse {} logging⟩
    | _ => none

end FieldBridge

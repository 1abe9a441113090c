import FieldBridge.Advice.Analysis
import FieldBridge.Advice.Summary
import FieldBridge.Conversion.Record

/-!
# Advice in documents
-/

namespace FieldBridge

open Record

instance : Record AdviceKind := ofNames AdviceKind.all AdviceKind.name

instance : Record Advice where
  encode a := .object (member "type" a.kind ++ member "impact" a.impact ++ memberIf "transformationId" a.conversion ++
    memberIf "transformationName" a.conversionName ++ member "description" a.description ++
    memberIf "currentValue" a.current ++ memberIf "suggestedValue" a.suggested)
  decode? d := do
    match ← d.slots? [slot "type", slot "impact", slot "transformationId", slot "transformationName",
        slot "description", slot "currentValue", slot "suggestedValue"] with
    | [kind, impact, conversion, conversionName, description, current, suggested] =>
      some ⟨← needed kind, ← needed impact, ← ifAny conversion, ← ifAny conversionName, ← needed description,
        ← ifAny current, ← ifAny suggested⟩
    | _ => none

instance : Record Improvement where
  encode i := .object (member "transformationId" i.conversion ++ member "transformationName" i.name ++
    member "improvement" i.percent)
  decode? d := do
    match ← d.slots? [slot "transformationId", slot "transformationName", slot "improvement"] with
    | [conversion, name, percent] => some ⟨← needed conversion, ← needed name, ← needed percent⟩
    | _ => none

instance : Record Performance where
  encode p := .object (member "averageImprovement" p.average ++ member "bestImprovement" p.best ++
    memberOrNull "bestTransformationName" p.bestName ++ memberOrNull "worstTransformationName" p.worstName ++
    member "transformationsAnalyzed" p.analyzed)
  decode? d := do
    match ← d.slots? [slot "averageImprovement", slot "bestImprovement", slot "bestTransformationName",
        slot "worstTransformationName", slot "transformationsAnalyzed"] with
    | [average, best, bestName, worstName, analyzed] =>
      some ⟨← needed average, ← needed best, ← ifAny bestName, ← ifAny worstName, ← needed analyzed⟩
    | _ => none

instance : Record CacheSnapshot where
  encode c := .object (member "size" c.size ++ member "capacity" c.capacity ++ member "hits" c.hits ++
    member "misses" c.misses ++ member "hitRate" c.hitRate)
  decode? d := do
    match ← d.slots? [slot "size", slot "capacity", slot "hits", slot "misses", slot "hitRate"] with
    | [size, capacity, hits, misses, hitRate] =>
      some ⟨← needed size, ← needed capacity, ← needed hits, ← needed misses, ← needed hitRate⟩
    | _ => none

instance : Record Summary where
  encode s := .object (member "overallPerformance" s.performance ++ member "improvements" s.improvements ++
    member "cacheStats" s.cache ++ member "recommendations" s.advice)
  decode? d := do
    match ← d.slots? [slot "overallPerformance", slot "improvements", slot "cacheStats", slot "recommendations"] with
    | [performance, improvements, cache, advice] =>
      some ⟨← needed performance, ← needed improvements, ← needed cache, ← needed advice⟩
    | _ => none

/-- A weight of 8 bits. -/
def weight? (d : Option Document) : Option Nat := (needed d : Option Nat).filter (· < 256)

instance : Record Analysis where
  encode a := .object (member "transformationId" a.conversion ++ member "transformationName" a.name ++
    member "averageTimeMs" a.averageTime ++ member "averageTimeWithCacheMs" a.averageTimeCached ++
    member "timeImprovement" a.saved ++ member "complexity" a.complexity ++ member "cacheEfficiency" a.efficiency ++
    member "costBenefitRatio" a.costBenefit ++ member "usageCount" a.usage ++ member "cacheHits" a.hits ++
    member "cacheMisses" a.misses ++ member "optimizationPotential" a.potential)
  decode? d := do
    match ← d.slots? [slot "transformationId", slot "transformationName", slot "averageTimeMs",
        slot "averageTimeWithCacheMs", slot "timeImprovement", slot "complexity", slot "cacheEfficiency",
        slot "costBenefitRatio", slot "usageCount", slot "cacheHits", slot "cacheMisses",
        slot "optimizationPotential"] with
    | [conversion, name, averageTime, averageTimeCached, saved, complexity, efficiency, costBenefit, usage, hits,
        misses, potential] =>
      some ⟨← needed conversion, ← needed name, ← needed averageTime, ← needed averageTimeCached, ← needed saved,
        ← weight? complexity, ← needed efficiency, ← needed costBenefit, ← needed usage, ← needed hits,
        ← needed misses, ← needed potential⟩
    | _ => none

instance : Record Gain where
  encode g := .object (member "timeReduction" g.time ++ member "efficiencyIncrease" g.efficiency)
  decode? d := do
    match ← d.slots? [slot "timeReduction", slot "efficiencyIncrease"] with
    | [time, efficiency] => some ⟨← needed time, ← needed efficiency⟩
    | _ => none

end FieldBridge

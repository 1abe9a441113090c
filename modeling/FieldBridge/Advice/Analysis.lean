import FieldBridge.Advice.Basic
import FieldBridge.Decimal.Order
import FieldBridge.Decimal.Places
import FieldBridge.Conversion.Catalog

/-!
# Analyses of single conversions

Cost and benefit of each conversion that was run both ways. Its lookups are those that
the cache counted for it; a conversion without a count gets a share of the lookups
that nobody else has.
-/

namespace FieldBridge

structure Analysis where
  conversion : String
  name : String
  averageTime : Float
  averageTimeCached : Float
  /-- the percentage of time that the cache saves -/
  saved : Float
  complexity : Nat
  /-- the share of lookups that hit -/
  efficiency : Float
  costBenefit : Float
  usage : Nat
  hits : Nat
  misses : Nat
  /-- how much there is to gain from making the conversion faster -/
  potential : Float

namespace Analysis

/-- The nearest whole number to a share of a count. -/
def shareOf (count : Nat) (share : Float) : Nat := Decimal.floor64 (Decimal.round (Float.ofNat count * share))

/-- A part of the lookups that no id has, by the part of its results among those of ids without
a count. -/
def fallback (id : String) (results : List BenchmarkResult) (stats : CacheStats) : Lookups :=
  let uncounted := results.filter fun r => !Keyed.contains r.conversion stats.byConversion
  if uncounted.isEmpty then {}
  else
    let hits := stats.byConversion.foldr (fun e n => e.2.hits + n) 0
    let misses := stats.byConversion.foldr (fun e n => e.2.misses + n) 0
    let share := Float.ofNat (uncounted.filter (·.conversion == id)).length / Float.ofNat uncounted.length
    ⟨shareOf (stats.hits - hits) share, shareOf (stats.misses - misses) share⟩

def lookups (id : String) (results : List BenchmarkResult) (stats : CacheStats) : Lookups :=
  (Keyed.find? id stats.byConversion).getD (fallback id results stats)

def of (c : Catalog) (results : List BenchmarkResult) (stats : CacheStats) (without cached : BenchmarkResult) :
    Analysis :=
  let counted := lookups without.conversion results stats
  let complexity := ((c.get? without.conversion).map (·.complexity.weight)).getD 1
  let saved := improvement without cached
  { conversion := without.conversion, name := without.name, averageTime := without.averageTime
    averageTimeCached := cached.averageTime, saved := saved, complexity := complexity
    efficiency := counted.hitRate
    costBenefit := saved * counted.hitRate / Float.ofNat complexity
    usage := counted.total, hits := counted.hits, misses := counted.misses
    potential := without.averageTime * Float.ofNat counted.total / (counted.hitRate + 0.1) }

end Analysis

def analyses (c : Catalog) (results : List BenchmarkResult) (stats : CacheStats) : List Analysis :=
  (pairs results).map fun (without, cached) => .of c results stats without cached

/-! ## Advice -/

namespace Analysis

/-- Greatest potential first; analyses with the same potential keep their order. -/
def byPotential (as : List Analysis) : List Analysis :=
  as.mergeSort fun a b => Decimal.totalLe b.potential a.potential

def isSlowAndUncached (a : Analysis) : Bool := a.efficiency < 0.7 && a.averageTime > 5.0

def optimizationImpact (a : Analysis) : Level :=
  if a.usage > 100 && a.averageTime > 20.0 then .high
  else if a.usage > 50 || a.averageTime > 10.0 then .medium else .low

def toOptimize (a : Analysis) : Advice :=
  .forConversion .optimizeConversion a.optimizationImpact a.conversion a.name
    ("\"" ++ a.name ++ "\" takes " ++ Decimal.fixed 2 a.averageTime ++ "ms on average with a " ++
      Decimal.fixed 0 (a.efficiency * 100.0) ++ "% cache hit rate; optimize its implementation")

def isWorthPrecalculating (a : Analysis) : Bool := a.complexity > 2 && a.usage > 20 && a.efficiency < 0.5

def toPrecalculate (a : Analysis) : Advice :=
  .forConversion .precalculateValues .medium a.conversion a.name
    ("\"" ++ a.name ++ "\" is complex and frequently used; precalculate its common values")

/-- Only the three analyses of greatest potential can be advised for optimization. -/
def advice (as : List Analysis) : List Advice :=
  (((byPotential as).take 3).filter isSlowAndUncached).map toOptimize ++
    (as.filter isWorthPrecalculating).map toPrecalculate

/-- The ids of slow and often used conversions that the cache does not help. -/
def problems (as : List Analysis) : List String :=
  (as.filter fun a => a.averageTime > 20.0 && a.efficiency < 0.3 && a.usage > 10).map (·.conversion)

end Analysis

/-! ## What there is to gain -/

structure Gain where
  /-- in percent, with one decimal -/
  time : Float
  /-- in whole percentage points -/
  efficiency : Float

/-- The mean saving of the conversions, and how far the hit rate of all lookups is from 90 percent. -/
def Gain.of (as : List Analysis) : Gain :=
  if as.isEmpty then ⟨0.0, 0.0⟩
  else
    let mean := Decimal.sum (as.map (·.saved)) / Float.ofNat as.length
    let usage := as.foldr (fun a n => a.usage + n) 0
    let efficiency :=
      if usage = 0 then 0.0
      else Decimal.sum (as.map fun a => a.efficiency * Float.ofNat a.usage) / Float.ofNat usage
    let missing := 0.9 - efficiency
    ⟨Decimal.round (mean * 10.0) / 10.0, Decimal.round ((if missing > 0.0 then missing else 0.0) * 100.0)⟩

end FieldBridge

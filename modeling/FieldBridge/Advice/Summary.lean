import FieldBridge.Advice.Basic
import FieldBridge.Decimal.Order
import FieldBridge.Decimal.Places

/-!
# Summaries of benchmarks

How much the cache improves each conversion, best first, and what follows for the
caching of single conversions and for the settings of the cache. A cache without any
lookup gets no advice.
-/

namespace FieldBridge

/-- The percentage of time that the cache saves a conversion. -/
structure Improvement where
  conversion : String
  name : String
  percent : Float

structure Performance where
  average : Float
  best : Float
  bestName : Option String
  worstName : Option String
  analyzed : Nat

structure CacheSnapshot where
  size : Nat
  capacity : Nat
  hits : Nat
  misses : Nat
  hitRate : Float

structure Summary where
  performance : Performance
  improvements : List Improvement
  cache : CacheSnapshot
  advice : List Advice

/-! ## Improvements -/

namespace Improvement

/-- Greatest first; conversions with the same figure keep their order. -/
def ranking (results : List BenchmarkResult) : List Improvement :=
  ((pairs results).map fun (without, cached) =>
      Improvement.mk cached.conversion cached.name (improvement without cached)).mergeSort
    fun a b => Decimal.totalLe b.percent a.percent

/-- Above this percentage caching is to be preferred. -/
def great : Float := 50.0

/-- Below this percentage caching is not worth its effort. -/
def small : Float := 5.0

def advice? (i : Improvement) : Option Advice :=
  if i.percent > great then
    some (.forConversion .prioritizeCaching .high i.conversion i.name
      ("\"" ++ i.name ++ "\" benefits greatly from caching (" ++ Decimal.fixed 2 i.percent ++
        "% faster); prioritize it in the cache"))
  else if i.percent < small then
    some (.forConversion .skipCaching .low i.conversion i.name
      ("\"" ++ i.name ++ "\" barely improves with caching (" ++ Decimal.fixed 2 i.percent ++
        "%); consider skipping the cache for it"))
  else none

end Improvement

def Performance.of (ranking : List Improvement) : Performance :=
  { average := if ranking.isEmpty then 0.0
      else Decimal.sum (ranking.map (·.percent)) / Float.ofNat ranking.length
    best := (ranking.head?.map (·.percent)).getD 0.0
    bestName := ranking.head?.map (·.name)
    worstName := ranking.getLast?.map (·.name)
    analyzed := ranking.length }

/-! ## The cache -/

/-- Half as much again, cut to a whole number of at most 64 bits. -/
def halfMore (n : Nat) : Nat := Decimal.floor64 (Float.ofNat n * 1.5)

/-- Twice as much, or the most that 64 bits hold. -/
def double64 (n : Nat) : Nat := min (2 * n) (0x10000000000000000 - 1)

namespace CacheStats

/-- A full cache with few hits should be larger. -/
def largerCapacity? (stats : CacheStats) (settings : CacheSettings) : Option Advice :=
  if stats.hitRate < 0.5 && Float.ofNat stats.size >= Float.ofNat settings.capacity * 0.9 then
    some (.forCache .increaseCapacity .medium
      "The cache is nearly full and its hit rate is low; increase its capacity"
      settings.capacity (halfMore settings.capacity))
  else none

/-- With very few hits entries should live longer. -/
def longerTtl? (stats : CacheStats) (settings : CacheSettings) : Option Advice :=
  if stats.hitRate < 0.3 then
    some (.forCache .increaseTtl .medium "The hit rate is very low; increase the TTL to keep entries longer"
      settings.ttlMilliseconds (double64 settings.ttlMilliseconds))
  else none

/-- A cache with many hits that is less than half full can be smaller. -/
def smallerCapacity? (stats : CacheStats) (settings : CacheSettings) : Option Advice :=
  let enough := max (halfMore stats.size) 100
  if stats.hitRate > 0.9 && Float.ofNat stats.size < Float.ofNat settings.capacity * 0.5 &&
      enough < settings.capacity then
    some (.forCache .decreaseCapacity .low
      "The hit rate is high while less than half the capacity is used; capacity can be reduced"
      settings.capacity enough)
  else none

def advice (stats : CacheStats) (settings : CacheSettings) : List Advice :=
  (stats.largerCapacity? settings).toList ++ (stats.longerTtl? settings).toList ++
    (stats.smallerCapacity? settings).toList

end CacheStats

/-! ## The summary -/

def analyze (results : List BenchmarkResult) (stats : CacheStats) (settings : CacheSettings) : Summary :=
  let ranking := Improvement.ranking results
  { performance := .of ranking
    improvements := ranking
    cache := ⟨stats.size, settings.capacity, stats.hits, stats.misses, stats.hitRate⟩
    advice := ranking.filterMap Improvement.advice? ++ if stats.lookups = 0 then [] else stats.advice settings }

/-! ## Following the advice -/

/-- The settings that the advice asks to increase. -/
def increases (advice : List Advice) : SettingsUpdate :=
  advice.foldl (fun u a =>
    match a.kind, a.suggested with
    | .increaseCapacity, some capacity => { u with capacity := some capacity }
    | .increaseTtl, some milliseconds => { u with ttl := some (Nanoseconds.ofMilliseconds milliseconds) }
    | _, _ => u) {}

/-- Carries out the increases that an analysis recommends, and no decrease. -/
def Cache.optimize (c : Cache) (results : List BenchmarkResult) : Except Error CacheSettings × Cache :=
  c.updateSettings (increases (analyze results c.stats c.settings).advice)

end FieldBridge

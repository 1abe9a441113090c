import FieldBridge.Benchmark.Basic

/-!
# Advice

What can be recommended after benchmarks, and the figures it rests on.
-/

namespace FieldBridge

inductive AdviceKind where
  | increaseTtl
  | increaseCapacity
  | decreaseTtl
  | decreaseCapacity
  | prioritizeCaching
  | skipCaching
  | optimizeConversion
  | precalculateValues
  deriving DecidableEq, Repr

namespace AdviceKind

def all : List AdviceKind :=
  [increaseTtl, increaseCapacity, decreaseTtl, decreaseCapacity, prioritizeCaching, skipCaching, optimizeConversion,
    precalculateValues]

def name : AdviceKind → String
  | increaseTtl => "increase_ttl"
  | increaseCapacity => "increase_capacity"
  | decreaseTtl => "decrease_ttl"
  | decreaseCapacity => "decrease_capacity"
  | prioritizeCaching => "prioritize_caching"
  | skipCaching => "skip_caching"
  | optimizeConversion => "optimize_transformation"
  | precalculateValues => "precalculate_values"

end AdviceKind

/-- One piece of advice, for a conversion or for the cache. Values are numbers of entries
or milliseconds. -/
structure Advice where
  kind : AdviceKind
  impact : Level
  conversion : Option String := none
  conversionName : Option String := none
  description : String
  current : Option Nat := none
  suggested : Option Nat := none
  deriving DecidableEq, Repr

def Advice.forConversion (kind : AdviceKind) (impact : Level) (id name description : String) : Advice :=
  { kind := kind, impact := impact, conversion := some id, conversionName := some name, description := description }

def Advice.forCache (kind : AdviceKind) (impact : Level) (description : String) (current suggested : Nat) : Advice :=
  { kind := kind, impact := impact, description := description, current := some current, suggested := some suggested }

/-! ## The first results of each conversion -/

/-- The members of a list without those that came before. -/
def distinct (ids : List String) : List String :=
  ids.foldl (fun seen id => if seen.contains id then seen else seen ++ [id]) []

/-- For each id the first result past the cache and the first one through it, for ids that have
both, in the order in which the ids come first. -/
def pairs (results : List BenchmarkResult) : List (BenchmarkResult × BenchmarkResult) :=
  (distinct (results.map (·.conversion))).filterMap fun id =>
    let first (cached : Bool) := results.find? fun r => r.conversion == id && r.cached == cached
    match first false, first true with
    | some without, some cached => some (without, cached)
    | _, _ => none

end FieldBridge

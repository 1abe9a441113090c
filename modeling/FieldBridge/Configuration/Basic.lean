import FieldBridge.Cache.Basic

/-!
# Configuration

What a user can set once for all runs: the cache, the size of benchmarks, the output
and the log. Everything has a default.
-/

namespace FieldBridge

structure CacheSection where
  capacity : Nat := 500
  ttlSeconds : Nat := 1800
  enabled : Bool := true
  deriving DecidableEq, Repr

structure BenchmarkSection where
  iterations : Nat := 10
  sampleCount : Nat := 50
  deriving DecidableEq, Repr

structure OutputSection where
  format : String := "human"
  color : Bool := true
  progress : Bool := true
  deriving DecidableEq, Repr

structure LoggingSection where
  level : String := "warn"
  format : String := "compact"
  file : Option String := none
  deriving DecidableEq, Repr

structure Configuration where
  cache : CacheSection := {}
  benchmark : BenchmarkSection := {}
  output : OutputSection := {}
  logging : LoggingSection := {}
  deriving DecidableEq, Repr

/-- What is wrong with a configuration. -/
inductive ConfigurationFault where
  | zeroCapacity
  | zeroIterations
  | badVariable (name value : String)
  /-- a number too large for TOML -/
  | tooLarge
  deriving DecidableEq, Repr

def ConfigurationFault.message : ConfigurationFault → String
  | zeroCapacity => "Configuration error: cache.capacity must be at least 1"
  | zeroIterations => "Configuration error: benchmark.iterations must be at least 1"
  | badVariable name value => s!"Configuration error: {name} has an invalid value: '{value}'"
  | tooLarge => "Configuration error: Failed to serialize as TOML: out-of-range value for u64 type"

namespace Configuration

def validate (c : Configuration) : Except ConfigurationFault Unit :=
  if c.cache.capacity = 0 then .error .zeroCapacity
  else if c.benchmark.iterations = 0 then .error .zeroIterations
  else .ok ()

def cacheSettings (c : Configuration) : CacheSettings :=
  ⟨c.cache.capacity, Nanoseconds.ofSeconds c.cache.ttlSeconds, c.cache.enabled⟩

end Configuration

end FieldBridge

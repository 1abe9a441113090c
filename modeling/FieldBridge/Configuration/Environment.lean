import FieldBridge.Configuration.Basic
import FieldBridge.Text.Blank
import FieldBridge.Text.Case
import FieldBridge.Text.Natural

/-!
# Environment

Variables of the environment come before what the configuration files say.
-/

namespace FieldBridge

/-- Variables and their values. -/
abbrev Environment := List (String × String)

namespace Environment

def get? (e : Environment) (name : String) : Option String := e.lookup name

/-- The number that a variable holds, or else what is given. -/
def natural (e : Environment) (name : String) (otherwise : Nat) : Except ConfigurationFault Nat :=
  match e.get? name with
  | none => .ok otherwise
  | some value =>
    match Text.natural? (Text.trim value) with
    | some n => .ok n
    | none => .error (.badVariable name value)

def isYes (value : String) : Bool := ["1", "true", "yes", "on"].contains (Text.lower value)

end Environment

/-- A configuration with what the environment sets in its place. -/
def Configuration.override (c : Configuration) (e : Environment) : Except ConfigurationFault Configuration := do
  let capacity ← e.natural "FIELDMAP_CACHE_CAPACITY" c.cache.capacity
  let ttl ← e.natural "FIELDMAP_CACHE_TTL_SECS" c.cache.ttlSeconds
  let enabled := ((e.get? "FIELDMAP_CACHE_ENABLED").map Environment.isYes).getD c.cache.enabled
  let iterations ← e.natural "FIELDMAP_BENCH_ITERATIONS" c.benchmark.iterations
  let samples ← e.natural "FIELDMAP_BENCH_SAMPLES" c.benchmark.sampleCount
  let level := (e.get? "FIELDMAP_LOG_LEVEL").getD c.logging.level
  .ok { c with cache := ⟨capacity, ttl, enabled⟩, benchmark := ⟨iterations, samples⟩
               logging := { c.logging with level := level } }

end FieldBridge

import FieldBridge.CommandLine.Needs
import Std.Data.HashMap
import Std.Time.DateTime.Timestamp

/-!
# The program

Reads what a run needs, runs it, and writes the files that it has changed.
-/

namespace FieldBridge.Program

open CommandLine

def variableNames : List String :=
  ["FIELDMAP_CONFIG", "FIELDMAP_CACHE_CAPACITY", "FIELDMAP_CACHE_TTL_SECS", "FIELDMAP_CACHE_ENABLED",
    "FIELDMAP_BENCH_ITERATIONS", "FIELDMAP_BENCH_SAMPLES", "FIELDMAP_LOG_LEVEL", "FIELDMAP_LOG_FORMAT",
    "FIELDMAP_LOG_FILE", "HOME", "XDG_CONFIG_HOME"]

def environment : IO Environment :=
  variableNames.filterMapM fun name => do return (← IO.getEnv name).map (name, ·)

/-- What is known after a look at a path. -/
def look (files : Files) (path : String) : IO Files := do
  try
    let text ← IO.FS.readFile path
    return (files.save? path text).getD files
  catch e =>
    match e with
    | .inappropriateType .. => return (files.makeDirectory? path).getD files
    | _ => return files

def now : IO Instant := do
  let nanos := (← Std.Time.Timestamp.now).toNanosecondsSinceUnixEpoch.val
  let seconds := nanos / 1000000000
  return ⟨seconds / 86400, ⟨(seconds % 86400).toNat, (nanos % 1000000000).toNat⟩⟩

/-- How long each iteration takes, under the number of the look at the clock that ends it. -/
abbrev Timetable := Std.HashMap Nat Nat

/-- Makes iterations of a run and times them. -/
def rehearseRun (r : BenchmarkRun) (t : Conversion) (samples : List Json) :
    Nat → Benchmark.State × Timetable → IO (Benchmark.State × Timetable)
  | 0, course => return course
  | n + 1, (state, times) => do
    let begun ← IO.monoNanosNow
    let state ← IO.lazyPure fun _ => Benchmark.lap t r.cached samples state
    let taken := (← IO.monoNanosNow) - begun
    let times := times.insert (state.cache.clock.looks - 1) taken
    rehearseRun r t samples n ({ state with cache := state.cache.wait taken }, times)

/-- Makes the runs of a plan once, to time them. -/
def rehearse : Plan → Cache × Timetable → IO Timetable
  | [], (_, times) => return times
  | r :: rest, (cache, times) =>
    match Catalog.builtin.get? r.conversion with
    | none => return times
    | some t => do
      let (state, times) ← rehearseRun r t (t.source.samples r.samples) r.iterations (Benchmark.start r cache, times)
      rehearse rest (state.cache, times)

/-- The clock that runs by the times of a rehearsal. -/
def clock : Option (CacheSettings × Plan) → IO Clock
  | none => return {}
  | some (settings, plan) => do
    let times ← rehearse plan (.empty settings, {})
    return { pace := fun look => times.getD look 0 }

def pathOf : Place → String
  | "/" :: names => "/" ++ Text.join "/" names
  | names => Text.join "/" names

/-- Writes the texts that are not as they were. -/
def save (before after : Files) : IO Unit :=
  after.texts.forM fun (place, text) => do
    if before.textAt? place != some text then
      let path := pathOf place
      if Path.parent path != "" then IO.FS.createDirAll (Path.parent path)
      IO.FS.writeFile path text

def start (args : List String) : IO UInt32 := do
  let e ← environment
  match Invocation.parse e args with
  | .error .refused =>
    IO.eprint (usageText [])
    return 2
  | parsed =>
    let i? := parsed.toOption
    let files ← ((i?.map (·.paths e)).getD []).foldlM look {}
    let files ← ((i?.bind (·.logPath? e files)).toList).foldlM look files
    let clock ← clock (i?.bind (·.plan? e files))
    match CommandLine.run ⟨e, clock, ← now⟩ files args with
    | none => return 2
    | some ending =>
      save files ending.files
      IO.print ending.out
      IO.eprint ending.err
      return UInt32.ofNat ending.code

end FieldBridge.Program

def main (args : List String) : IO UInt32 := FieldBridge.Program.start args

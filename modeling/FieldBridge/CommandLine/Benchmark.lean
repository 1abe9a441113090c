import FieldBridge.Advice.Analysis
import FieldBridge.Benchmark.Plan
import FieldBridge.Cache.Record
import FieldBridge.CommandLine.Command
import FieldBridge.CommandLine.Desk
import FieldBridge.Conversion.Builtin

/-!
# Benchmarks on the command line

A plan is carried out on a cache of its own, what it says about the cache is reported,
and the results are exported where that is asked for.
-/

namespace FieldBridge.CommandLine

/-- Everything that a benchmark has shown. -/
structure BenchmarkReport where
  results : List BenchmarkResult
  summary : Summary
  analyses : List Analysis
  settings : Option CacheSettings
  exportPath : Option String

namespace BenchmarkReport

open Record

def encode (r : BenchmarkReport) : Json :=
  .object (member "results" r.results ++ member "summary" r.summary ++ member "transformations" r.analyses ++
    member "transformationRecommendations" (Analysis.advice r.analyses) ++
    member "problemTransformations" (Analysis.problems r.analyses) ++ member "estimatedImpact" (Gain.of r.analyses) ++
    memberIf "appliedSettings" r.settings ++ memberIf "exportPath" r.exportPath)

def row (r : BenchmarkResult) : List String :=
  [r.conversion, if r.cached then "yes" else "no", Decimal.fixed 3 r.averageTime, Decimal.fixed 2 r.totalTime,
    toString r.failures]

def table (r : BenchmarkReport) : TextTable :=
  ⟨["Transformation", "Cached", "Avg ms", "Total ms", "Failures"], r.results.map row⟩

def gainText (g : Gain) : String :=
  "Estimated impact: " ++ Decimal.fixed 1 g.time ++ "% less time, +" ++ Decimal.fixed 0 g.efficiency ++
    " points cache efficiency"

def settingsText (s : CacheSettings) : String :=
  s!"✓ Cache tuned: capacity {s.capacity}, TTL {Nanoseconds.wholeSeconds s.ttl}s"

def write (s : Style) (r : BenchmarkReport) : Work Unit := do
  if !s.isHuman then s.data r.encode
  else
    s.heading "Benchmark results"
    s.table r.table
    Style.block (s.format.summary r.summary)
    let problems := Analysis.problems r.analyses
    if !problems.isEmpty then s.warning ("Transformations to review: " ++ Text.join ", " problems)
    (Analysis.advice r.analyses).forM fun a => s.info a.description
    s.info (gainText (Gain.of r.analyses))
    r.settings.toList.forM fun settings => s.remark (settingsText settings)
    r.exportPath.toList.forM fun path => s.remark ("✓ Exported results to " ++ path)

end BenchmarkReport

/-! ## Exports -/

/-- The format that a path asks for by its ending. -/
def inferredFormat (path : String) : ExportFormat :=
  match (Path.extension? path).map ExportFormat.parse with
  | some (.ok format) => format
  | _ => .json

/-- The file to export to; in a directory it gets a name of its own. -/
def exportTarget (f : Files) (path : String) (format : ExportFormat) (now : Instant) : String :=
  if f.isDirectory path then Path.join path (exportFileName "fieldmap-benchmark" format (some now)) else path

def exportResults (now : Instant) (path : String) (format : Option ExportFormat) (results : List BenchmarkResult)
    (summary : Summary) : Work String := do
  let d ← get
  let format := format.getD (inferredFormat path)
  let target := exportTarget d.files path format now
  match d.files.save? target (exportText format (some now) results (some summary)) with
  | some files => set { d with files := files }
  | none => fail (.engine .unwritable)
  pure target

/-! ## The command -/

/-- The runs to make, of one conversion or of all. -/
def planFor (catalog : Catalog) (conversion : Option String) (iterations samples : Nat) : Except Error Plan :=
  match conversion with
  | none => .ok (Plan.all catalog iterations samples)
  | some id =>
    if (catalog.get? id).isSome then .ok (Plan.comparative id iterations samples) else .error (.conversionNotFound id)

def benchmark (clock : Clock) (now : Instant) (c : Configuration) (s : Style) (r : BenchmarkRequest) : Work Unit := do
  let catalog := Catalog.builtin
  let cache ← orFail .engine (Cache.withSettings c.cacheSettings clock)
  let iterations := r.iterations.getD c.benchmark.iterations
  let samples := r.samples.getD c.benchmark.sampleCount
  let plan ← orFail .engine (planFor catalog r.conversion iterations samples)
  s.info s!"Running {plan.length} benchmark(s), {iterations} iteration(s) of {samples} sample(s) each"
  let course := plan.perform catalog false cache
  let results ← orFail .engine course.outcome
  let summary := analyze results course.cache.stats course.cache.settings
  let settings ← if r.optimize then some <$> orFail .engine (course.cache.optimize results).1 else pure none
  let exportPath ← match r.exportPath with
    | some path => some <$> exportResults now path r.exportFormat results summary
    | none => pure none
  BenchmarkReport.write s ⟨results, summary, analyses catalog results course.cache.stats, settings, exportPath⟩

end FieldBridge.CommandLine

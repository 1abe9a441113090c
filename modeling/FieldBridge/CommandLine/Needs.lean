import FieldBridge.CommandLine.Run

/-!
# What a run needs

The files that a run may look at and the benchmark runs whose times it reports, so that
both can be had before it.
-/

namespace FieldBridge.CommandLine

namespace MappingFiles

/-- The files that stand for a mapping file, with those of the schemas. -/
def paths (m : MappingFiles) : List String :=
  ((MappingStore.ofFile? m.mapping).map fun (store, id) => store.candidates id).getD [] ++
    m.sources :: m.destinations.toList

end MappingFiles

def Command.paths (e : Environment) : Command → List String
  | .validate m => m.paths
  | .map m record => record :: m.paths
  | .benchmark r => r.exportPath.toList
  | .writeConfiguration path forUser _ =>
    match configurationPath e path forUser with
    | .ok path => [path]
    | .error _ => []
  | _ => []

namespace Invocation

def paths (e : Environment) (i : Invocation) : List String :=
  i.configuration.elim (Configuration.standardPaths e) ([·]) ++ i.command.paths e

/-- The configuration of a run, if it gets one. -/
def configuration? (e : Environment) (files : Files) (i : Invocation) : Option Configuration :=
  match (loadConfiguration e i.configuration).run.run { files := files } with
  | (.ok c, _) => some c
  | (.error _, _) => none

/-- The file that a run logs to. -/
def logPath? (e : Environment) (files : Files) (i : Invocation) : Option String :=
  (i.configuration? e files).bind fun c => (logSettings e i c).1.file

/-- The benchmark runs that are made, and the settings of the cache for them. -/
def plan? (e : Environment) (files : Files) (i : Invocation) : Option (CacheSettings × Plan) := do
  let c ← i.configuration? e files
  match i.command with
  | .benchmark r =>
    match planFor .builtin r.conversion (r.iterations.getD c.benchmark.iterations)
        (r.samples.getD c.benchmark.sampleCount) with
    | .ok plan => some (c.cacheSettings, plan)
    | .error _ => none
  | _ => none

end Invocation

end FieldBridge.CommandLine

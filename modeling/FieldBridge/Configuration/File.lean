import FieldBridge.Configuration.Environment
import FieldBridge.Configuration.Record
import FieldBridge.Storage.Files
import FieldBridge.Toml.Parser
import FieldBridge.Toml.Printer
import FieldBridge.Yaml.Printer

/-!
# Configuration files

A configuration is kept in YAML, TOML or JSON. Without a file named by the user the
first file that can be read is taken, those of the working directory before that of
the user.
-/

namespace FieldBridge

inductive FileFormat where
  | yaml
  | toml
  | json
  deriving DecidableEq, Repr

/-- The format that the ending of a name stands for, JSON where it stands for none. -/
def FileFormat.ofPath (path : String) : FileFormat :=
  if Files.isYaml path then yaml else if Path.extension? path = some "toml" then toml else json

/-- Why a configuration file could not be used. -/
inductive ConfigurationFileFault where
  | file (cause : FileFault)
  | malformed (path : String) (format : FileFormat)
  deriving DecidableEq, Repr

def ConfigurationFileFault.message : ConfigurationFileFault → String
  | file cause => cause.message
  | malformed path .yaml => s!"YAML error: {path} holds no configuration"
  | malformed path .json => s!"JSON error: {path} holds no configuration"
  | malformed path .toml => s!"Configuration error: Invalid TOML in {path}: no configuration"

namespace Configuration

def parse? (format : FileFormat) (text : String) : Option Configuration :=
  let document := match format with
    | .yaml => Yaml.parse? text
    | .toml => Toml.parse? text
    | .json => (Json.parse? text).map Document.ofJson
  document.bind Record.decode?

def tables (c : Configuration) : List Toml.Table :=
  [⟨"cache", [("capacity", .integer c.cache.capacity), ("ttl_secs", .integer c.cache.ttlSeconds),
      ("enabled", .bool c.cache.enabled)]⟩,
    ⟨"benchmark", [("iterations", .integer c.benchmark.iterations),
      ("sample_count", .integer c.benchmark.sampleCount)]⟩,
    ⟨"output", [("format", .text c.output.format), ("color", .bool c.output.color),
      ("progress", .bool c.output.progress)]⟩,
    ⟨"logging", [("level", .text c.logging.level), ("format", .text c.logging.format)] ++
      (c.logging.file.map fun file => ("file", .text file)).toList⟩]

def text (c : Configuration) : FileFormat → Except ConfigurationFault String
  | .yaml => .ok (Yaml.print (Record.encode c))
  | .json => .ok (Record.encode c).pretty
  | .toml => (Toml.print? c.tables).elim (.error .tooLarge) .ok

def load (f : Files) (path : String) : Except ConfigurationFileFault Configuration := do
  let text ← (f.read path).mapError .file
  match parse? (FileFormat.ofPath path) text with
  | some c => .ok c
  | none => .error (.malformed path (FileFormat.ofPath path))

/-- The directory for the configurations of a user. -/
def userDirectory? (e : Environment) : Option String :=
  match (e.get? "XDG_CONFIG_HOME").filter Path.isAbsolute with
  | some directory => some directory
  | none => ((e.get? "HOME").filter (· != "")).map (Path.join · ".config")

def userPath? (e : Environment) : Option String :=
  (userDirectory? e).map fun directory => Path.join (Path.join directory "fieldmap") "config.toml"

/-- The files that are looked for, the first one first. -/
def standardPaths (e : Environment) : List String :=
  [".fieldmap.yaml", ".fieldmap.yml", ".fieldmap.json", ".fieldmap.toml"] ++ (userPath? e).toList

/-- The first configuration that can be read, and the files before it that could not. -/
def firstOf (f : Files) : List String → List (String × ConfigurationFileFault) × Configuration
  | [] => ([], {})
  | path :: rest =>
    if f.contains path then
      match load f path with
      | .ok c => ([], c)
      | .error e => ((path, e) :: (firstOf f rest).1, (firstOf f rest).2)
    else firstOf f rest

end Configuration

end FieldBridge

import FieldBridge.CommandLine.Grammar
import FieldBridge.Configuration.File
import FieldBridge.Export.Basic
import FieldBridge.Field.Kind
import FieldBridge.Rendering.Format

/-!
# Commands

What can be asked for on the command line, and the grammar of the lines that ask for
it.
-/

namespace FieldBridge.CommandLine

inductive Shell where
  | bash
  | zsh
  | fish
  | powerShell
  | elvish
  deriving DecidableEq, Repr

namespace Shell

def all : List Shell := [bash, zsh, fish, powerShell, elvish]

def name : Shell → String
  | bash => "bash"
  | zsh => "zsh"
  | fish => "fish"
  | powerShell => "power-shell"
  | elvish => "elvish"

end Shell

/-- What a benchmark is asked to do; what is left out is taken from the configuration. -/
structure BenchmarkRequest where
  conversion : Option String
  iterations : Option Nat
  samples : Option Nat
  exportPath : Option String
  exportFormat : Option ExportFormat
  optimize : Bool

/-- The files that say how records are mapped. -/
structure MappingFiles where
  mapping : String
  sources : String
  destinations : Option String

inductive Command where
  | conversions (source target : Option Kind) (examples : Bool)
  | classify (destination source : Kind)
  | matrix (destination : Kind) (mappableOnly : Bool)
  | apply (source target : Kind) (value : String) (options conversion : Option String)
  | benchmark (request : BenchmarkRequest)
  | validate (files : MappingFiles)
  | map (files : MappingFiles) (record : String)
  | writeConfiguration (path : Option String) (forUser force : Bool)
  | showConfiguration (format : FileFormat)
  | completions (shell : Shell)

/-- A command, and what is asked for with every command. -/
structure Invocation where
  verbosity : Nat
  quiet : Bool
  configuration : Option String
  format : OutputFormat
  command : Command

/-! ## Values of flags -/

def isPath (s : String) : Bool := s != ""

def pathFlag (name : String) : Flag := { name := name, arity := .value isPath }

def textFlag (name : String) (short : Option Char) : Flag :=
  { name := name, short := short, arity := .value fun _ => true }

def isKind (s : String) : Bool := (Kind.ofName? s).isSome

def kindFlag (name : String) : Flag := { name := name, arity := .value isKind }

def numberFlag (name : String) (short : Char) : Flag :=
  { name := name, short := some short, arity := .value fun s => (Text.natural? s).isSome }

def kindOperand (name : String) : Operand := ⟨name, isKind, true⟩

/-- The choice that a name stands for. -/
def chosen? {α : Type} (all : List α) (name : α → String) (s : String) : Option α := all.find? fun a => name a == s

def fileFormatName : FileFormat → String
  | .toml => "toml"
  | .json => "json"
  | .yaml => "yaml"

def format? (s : String) : Option OutputFormat := chosen? OutputFormat.all OutputFormat.name s

def fileFormat? (s : String) : Option FileFormat := chosen? [.toml, .json, .yaml] fileFormatName s

def exportFormat? (s : String) : Option ExportFormat := chosen? ExportFormat.all ExportFormat.name s

def shell? (s : String) : Option Shell := chosen? Shell.all Shell.name s

/-! ## The grammar -/

/-- The flags of every command. -/
def sharedFlags : List Flag :=
  [{ name := "verbose", short := some 'v', arity := .counter },
    { name := "quiet", short := some 'q', excludes := some "verbose" },
    { name := "config", short := some 'c', arity := .value isPath, fallback := some "FIELDMAP_CONFIG" },
    { name := "output", short := some 'o', arity := .value fun s => (format? s).isSome },
    { name := "no-color" },
    { name := "help", short := some 'h', arity := .help },
    { name := "version", short := some 'V', arity := .version }]

def mappingFlags : List Flag :=
  [{ pathFlag "source-schema" with required := true }, pathFlag "destination-schema"]

def mappingOperand : Operand := ⟨"mapping-config", isPath, true⟩

def benchmarkFlags : List Flag :=
  [{ textFlag "transformation" (some 't') with excludes := some "all" }, { name := "all" },
    numberFlag "iterations" 'i', numberFlag "samples" 's', pathFlag "export",
    { name := "format", arity := .value fun s => (exportFormat? s).isSome }, { name := "auto-optimize" }]

def configurationGrammar : Grammar :=
  .node [] []
    [("init", .node [{ name := "user", excludes := some "path" }, { name := "force" }] [⟨"path", isPath, false⟩] []),
      ("show", .node [{ name := "format", short := some 'f', arity := .value fun s => (fileFormat? s).isSome }] [] [])]

def grammar : Grammar :=
  .node [] []
    [("transformations", .node [kindFlag "from", kindFlag "to", { name := "examples" }] [] []),
      ("classify", .node [] [kindOperand "dest", kindOperand "source"] []),
      ("matrix", .node [{ name := "mappable-only" }] [kindOperand "dest"] []),
      ("apply", .node [{ kindFlag "from" with required := true }, { kindFlag "to" with required := true },
        { name := "value", arity := .anyValue, required := true }, textFlag "options" none,
        textFlag "transformation" (some 't')] [] []),
      ("bench", .node benchmarkFlags [] []),
      ("validate", .node mappingFlags [mappingOperand] []),
      ("map", .node (mappingFlags ++ [{ pathFlag "record" with required := true }]) [mappingOperand] []),
      ("config", configurationGrammar),
      ("completions", .node [] [⟨"shell", fun s => (shell? s).isSome, true⟩] [])]

/-! ## From a reading to a command -/

def Reading.kind? (r : Reading) (flag : String) : Option Kind := (r.flag? flag).bind Kind.ofName?

def Reading.mappingFiles? (r : Reading) : Option MappingFiles :=
  match r.operands with
  | [mapping] => (r.flag? "source-schema").map fun sources => ⟨mapping, sources, r.flag? "destination-schema"⟩
  | _ => none

def Reading.benchmarkRequest (r : Reading) : BenchmarkRequest :=
  { conversion := r.flag? "transformation", iterations := (r.flag? "iterations").bind Text.natural?
    samples := (r.flag? "samples").bind Text.natural?, exportPath := r.flag? "export"
    exportFormat := (r.flag? "format").bind exportFormat?, optimize := r.has "auto-optimize" }

def Command.ofReading? (r : Reading) : Option Command :=
  match r.path, r.operands with
  | ["transformations"], [] => some (.conversions (r.kind? "from") (r.kind? "to") (r.has "examples"))
  | ["classify"], [destination, source] => do some (.classify (← Kind.ofName? destination) (← Kind.ofName? source))
  | ["matrix"], [destination] => do some (.matrix (← Kind.ofName? destination) (r.has "mappable-only"))
  | ["apply"], [] => do
    some (.apply (← r.kind? "from") (← r.kind? "to") (← r.flag? "value") (r.flag? "options") (r.flag? "transformation"))
  | ["bench"], [] => some (.benchmark r.benchmarkRequest)
  | ["validate"], _ => r.mappingFiles?.map .validate
  | ["map"], _ => do some (.map (← r.mappingFiles?) (← r.flag? "record"))
  | ["config", "init"], operands => some (.writeConfiguration operands.head? (r.has "user") (r.has "force"))
  | ["config", "show"], [] => some (.showConfiguration (((r.flag? "format").bind fileFormat?).getD .toml))
  | ["completions"], [shell] => (shell? shell).map .completions
  | _, _ => none

/-- Reads a command line. A configuration that is named comes before that of the environment. -/
def Invocation.parse (e : Environment) (args : List String) : Except Stop Invocation := do
  let r ← CommandLine.parse e sharedFlags grammar args
  match Command.ofReading? r with
  | some command =>
    .ok { verbosity := r.count "verbose", quiet := r.has "quiet"
          configuration := r.flag? "config" <|> e.get? "FIELDMAP_CONFIG"
          format := ((r.flag? "output").bind format?).getD .human, command := command }
  | none => .error .refused

end FieldBridge.CommandLine

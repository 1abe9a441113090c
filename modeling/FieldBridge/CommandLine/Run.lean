import FieldBridge.CommandLine.Benchmark
import FieldBridge.CommandLine.Configuration
import FieldBridge.CommandLine.Conversion
import FieldBridge.CommandLine.Mapping
import FieldBridge.Logging

/-!
# Running a command line

A line is read, the configuration loaded and the log opened before its command runs. A
line that is refused does nothing at all.
-/

namespace FieldBridge.CommandLine

/-- What a run takes from outside beside its arguments and files. -/
structure Surroundings where
  environment : Environment
  clock : Clock
  now : Instant

/-- How a run ends: its exit code, what it wrote, and the files afterwards. -/
structure Ending where
  code : Nat
  out : String
  err : String
  files : Files

def programName : String := "fieldmap"

def versionText (path : List String) : String := Text.join "-" (programName :: path) ++ " 0.1.0\n"

/-- How a command is called, with the commands below it. -/
def usageText (path : List String) : String :=
  let below := ((grammar.below? path).map fun g => g.commands.map (·.1)).getD []
  let call := ["Usage:", programName] ++ path ++ ["[OPTIONS]"] ++ if below.isEmpty then [] else ["<COMMAND>"]
  lines (Text.join " " call :: below.map ("  " ++ ·))

/-- A line for a shell that completes the names of commands. -/
def completionText (shell : Shell) : String :=
  let names := Text.join " " (grammar.commands.map (·.1))
  match shell with
  | .bash => s!"complete -W '{names}' {programName}"
  | .zsh => s!"compctl -k '({names})' {programName}"
  | .fish => s!"complete -c {programName} -f -a '{names}'"
  | .powerShell =>
    s!"Register-ArgumentCompleter -Native -CommandName {programName} -ScriptBlock \x7b '{names}'.Split() \x7d"
  | .elvish => s!"set edit:completion:arg-completer[{programName}] = \x7b|@words| put {names} \x7d"

def warn (message : String) : Work Unit := modify fun d => { d with err := d.err ++ message ++ "\n" }

/-- The configuration that is named, or the first standard one that can be read. -/
def loadConfiguration (e : Environment) (path : Option String) : Work Configuration := do
  let files := (← get).files
  let c ← match path with
    | some path => orFail .configurationFile (Configuration.load files path)
    | none =>
      let (failed, c) := Configuration.firstOf files (Configuration.standardPaths e)
      failed.forM fun (path, e) => warn s!"Warning: Failed to load config from \"{path}\": {e.message}"
      pure c
  let c ← orFail .configuration (c.override e)
  orFail .configuration c.validate
  pure c

/-- How a run logs, and the name of a format that there is not. -/
def logSettings (e : Environment) (i : Invocation) (c : Configuration) : LogSettings × Option String :=
  let verbosity := if i.quiet then 0 else i.verbosity
  ((LogSettings.ofVerbosity verbosity).withSection c.logging verbosity).withEnvironment e

/-- Opens the log. A run goes on without one. -/
def openLog (e : Environment) (i : Invocation) (c : Configuration) : Work Unit := do
  let (settings, badFormat) := logSettings e i c
  badFormat.toList.forM fun name => warn s!"Warning: Invalid log format '{name}', using default"
  match settings.file with
  | none => pure ()
  | some path =>
    let d ← get
    match d.files.openLog path with
    | .ok files => set { d with files := files }
    | .error e => warn s!"Failed to initialize logging: {e.message}"

def perform (w : Surroundings) (i : Invocation) (c : Configuration) : Work Unit :=
  let s : Style := ⟨i.format, i.quiet⟩
  match i.command with
  | .conversions source target examples => listConversions s source target examples
  | .classify destination source => classify s destination source
  | .matrix destination mappableOnly => matrix s destination mappableOnly
  | .apply source target raw options conversion => apply c s source target raw options conversion
  | .benchmark request => benchmark w.clock w.now c s request
  | .validate files => validate s files
  | .map files record => mapRecord c s files record
  | .writeConfiguration path forUser force => writeConfiguration w.environment s path forUser force
  | .showConfiguration format => showConfiguration c format
  | .completions shell => writeLine (completionText shell)

def work (w : Surroundings) (i : Invocation) : Work Unit := do
  let c ← loadConfiguration w.environment i.configuration
  openLog w.environment i c
  perform w i c

/-- Runs a line, unless it is refused. -/
def run (w : Surroundings) (files : Files) (args : List String) : Option Ending :=
  match Invocation.parse w.environment args with
  | .error .refused => none
  | .error (.help path) => some ⟨0, usageText path, "", files⟩
  | .error (.version path) => some ⟨0, versionText path, "", files⟩
  | .ok i =>
    match (work w i).run.run { files := files } with
    | (.ok _, d) => some ⟨0, d.out, d.err, d.files⟩
    | (.error e, d) => some ⟨e.exitCode, d.out, d.err ++ e.report, d.files⟩

end FieldBridge.CommandLine

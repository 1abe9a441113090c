import FieldBridge.Configuration.Environment
import FieldBridge.Configuration.Record
import FieldBridge.Storage.Files

/-!
# Logging

How much is logged, in what form and where to. Asking for more on the command line
comes before the level in the configuration.
-/

namespace FieldBridge

inductive LogFormat where
  | compact
  | full
  | json
  deriving DecidableEq, Repr

namespace LogFormat

def all : List LogFormat := [compact, full, json]

def name : LogFormat → String
  | compact => "Compact"
  | full => "Full"
  | json => "Json"

/-- A name of a format in letters of either case. -/
def ofName? (s : String) : Option LogFormat := all.find? fun f => Text.lowerAscii f.name == Text.lower s

end LogFormat

structure LogSettings where
  level : String := "warn"
  format : LogFormat := .compact
  console : Bool := true
  file : Option String := none
  threadIds : Bool := false
  sourceLocation : Bool := false
  deriving DecidableEq, Repr

instance : Record LogFormat := Record.ofNames LogFormat.all LogFormat.name

namespace LogSettings

open Record

/-- The settings for a number of requests to say more. -/
def ofVerbosity : Nat → LogSettings
  | 0 => {}
  | 1 => { level := "info" }
  | 2 => { level := "debug", sourceLocation := true }
  | _ => { level := "trace", format := .full, sourceLocation := true, threadIds := true }

/-- With what a configuration says, its level only if nothing more was asked for. -/
def withSection (s : LogSettings) (c : LoggingSection) (verbosity : Nat) : LogSettings :=
  { s with level := if verbosity = 0 then c.level else s.level
           format := (LogFormat.ofName? c.format).getD s.format
           file := c.file <|> s.file }

/-- With what the environment says. A format that is none is handed back. -/
def withEnvironment (s : LogSettings) (e : Environment) : LogSettings × Option String :=
  let s := { s with file := e.get? "FIELDMAP_LOG_FILE" <|> s.file }
  match e.get? "FIELDMAP_LOG_FORMAT" with
  | none => (s, none)
  | some name =>
    match LogFormat.ofName? name with
    | some format => ({ s with format := format }, none)
    | none => (s, some name)

def toJson (s : LogSettings) : Json :=
  .object (member "level" s.level ++ member "format" s.format ++ member "console" s.console ++
    memberOrNull "file" s.file ++ member "thread_ids" s.threadIds ++ member "source_location" s.sourceLocation)

end LogSettings

/-- Why there is no log file. -/
inductive LogFault where
  | unnamed (path : String)
  | inaccessible (path : String)
  deriving DecidableEq, Repr

def LogFault.message : LogFault → String
  | unnamed path => s!"Configuration error: Invalid log file path: {path}"
  | inaccessible path => s!"IO error: {path} cannot be used"

/-- Opens a log file at its end, and makes its directory. -/
def Files.openLog (f : Files) (path : String) : Except LogFault Files :=
  match Path.name? path with
  | none => .error (.unnamed path)
  | some name =>
    let target := Path.join (Path.directory path) name
    let opened := (f.makeDirectory? (Path.directory path)).bind fun f => f.write? target ((f.text? target).getD "")
    opened.elim (.error (.inaccessible path)) .ok

end FieldBridge

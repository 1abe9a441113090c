import FieldBridge.CommandLine.Argument
import FieldBridge.Configuration.File
import FieldBridge.Error
import FieldBridge.Mapping.Store

/-!
# Errors of commands

Why a command failed, by cause, with the text and the exit code of each.
-/

namespace FieldBridge

def LoadFault.message : LoadFault → String
  | unnamed path => s!"Invalid arguments: invalid mapping file name: {path}"
  | missing path => s!"File not found: {path}"
  | unreadable path cause => s!"Failed to load mapping config {path}: {cause.message}"

namespace CommandLine

inductive CommandError where
  | engine (e : Error)
  | file (e : FileFault)
  | configuration (e : ConfigurationFault)
  | configurationFile (e : ConfigurationFileFault)
  | alreadyThere (path : String)
  | noUserDirectory
  | argument (e : Argument.Fault)
  | otherKinds (t : Conversion) (source target : Kind)
  | mapping (e : LoadFault)
  | sources (database : String) (e : FileFault)
  | destinations (e : FileFault)
  | incompatible (message : String)
  | invalid (count total : Nat)

namespace CommandError

def message : CommandError → String
  | engine e => e.message
  | file e => e.message
  | configuration e => e.message
  | configurationFile e => e.message
  | alreadyThere path => s!"Configuration error: {path} already exists (use --force to overwrite)"
  | noUserDirectory => "Configuration error: Unable to determine user config directory"
  | argument e => e.message
  | otherKinds t source target =>
    s!"Invalid arguments: transformation '{t.id}' converts {t.source.name} to {t.target.name}, " ++
      s!"not {source.name} to {target.name}"
  | mapping e => e.message
  | sources database e => s!"Failed to fetch source fields: reading source fields for '{database}': {e.message}"
  | destinations e => s!"Failed to fetch destination schema: reading destination schema: {e.message}"
  | incompatible message => message
  | invalid count total => s!"{count} of {total} mapping(s) are invalid"

def fileCode : FileFault → Nat
  | .inaccessible _ => 1
  | .notFound _ => 3
  | .malformed _ _ => 4

def exitCode : CommandError → Nat
  | engine (.cancelled _ _) => 130
  | engine _ => 2
  | file e => fileCode e
  | configurationFile (.file e) => fileCode e
  | configurationFile (.malformed _ .json) => 12
  | configurationFile (.malformed _ .yaml) => 13
  | configurationFile (.malformed _ .toml) => 5
  | configuration _ | alreadyThere _ | noUserDirectory => 5
  | argument .notJson => 12
  | argument (.notPair _) | otherKinds _ _ _ | mapping (.unnamed _) => 6
  | incompatible _ => 7
  | invalid _ _ => 8
  | mapping (.missing _) => 3
  | mapping (.unreadable _ _) | sources _ _ | destinations _ => 9

/-- What is printed; after a wrong argument it says where there is help. -/
def report (e : CommandError) : String :=
  "Error: " ++ e.message ++ "\n" ++ if e.exitCode = 6 then "\nFor more information, try '--help'\n" else ""

end CommandError

end CommandLine

end FieldBridge

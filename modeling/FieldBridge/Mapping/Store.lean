import FieldBridge.Mapping.Record
import FieldBridge.Json.Printer
import FieldBridge.Storage.Files

/-!
# Stored mapping configurations

A store is a directory with one file for each configuration, named by its id. A
configuration is saved as JSON; a JSON file is looked for before a YAML file.
-/

namespace FieldBridge

structure MappingStore where
  directory : String
  deriving DecidableEq, Repr

/-- Why a configuration could not be loaded from its file. -/
inductive LoadFault where
  | unnamed (path : String)
  | missing (path : String)
  | unreadable (path : String) (cause : FileFault)
  deriving DecidableEq, Repr

namespace MappingStore

def path (s : MappingStore) (id ending : String) : String := Path.join s.directory (id ++ "." ++ ending)

/-- The files that may hold a configuration, the first one first. -/
def candidates (s : MappingStore) (id : String) : List String := ["json", "yaml", "yml"].map (s.path id)

def save? (s : MappingStore) (f : Files) (c : MappingConfiguration) : Option Files :=
  (f.makeDirectory? s.directory).bind (·.write? (s.path c.id "json") (Record.encode c).pretty)

def load (s : MappingStore) (f : Files) (id : String) : Except FileFault (Option MappingConfiguration) :=
  match (s.candidates id).find? f.contains with
  | some path => (f.record MappingConfiguration path).map some
  | none => .ok none

/-- The store that a file is in, and the id that its name stands for. -/
def ofFile? (path : String) : Option (MappingStore × String) :=
  (Path.stem? path).map fun id => (⟨Path.directory path⟩, id)

end MappingStore

/-- Loads the configuration that a path names, through the store it is in. -/
def loadMapping (f : Files) (path : String) : Except LoadFault MappingConfiguration :=
  match MappingStore.ofFile? path with
  | none => .error (.unnamed path)
  | some (store, id) =>
    match store.load f id with
    | .error cause => .error (.unreadable path cause)
    | .ok none => .error (.missing path)
    | .ok (some c) => .ok c

end FieldBridge

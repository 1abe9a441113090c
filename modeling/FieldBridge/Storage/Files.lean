import FieldBridge.Document.Record
import FieldBridge.Json.Parser
import FieldBridge.Storage.Path
import FieldBridge.Yaml.Parser

/-!
# Files

The texts and directories that a program sees, each at its place. A place is a list of
names from the working directory; places outside it start with the root or with names
that lead up. Nothing is known of what stands outside except that the directories above
are there.
-/

namespace FieldBridge

abbrev Place := List String

namespace Place

def isAbove (place : Place) : Bool := place == ["/"] || place.all (· == "..")

def up (place : Place) : Place :=
  if place == ["/"] then place else if place.isAbove then place ++ [".."] else place.dropLast

/-- The place that a name leads to. -/
def follow (place : Place) (name : String) : Place :=
  if name = "/" then [name] else if name = "." then place else if name = ".." then place.up else place ++ [name]

end Place

structure Files where
  texts : List (Place × String) := []
  directories : List Place := []

/-- Why a file could not be used. -/
inductive FileFault where
  | notFound (path : String)
  | inaccessible (path : String)
  | malformed (path expected : String)
  deriving DecidableEq, Repr

def FileFault.message : FileFault → String
  | notFound path => s!"File not found: {path}"
  | inaccessible path => s!"IO error: {path} cannot be used"
  | malformed path expected => s!"Invalid file format for {path}: expected {expected}"

namespace Files

def textAt? (f : Files) (place : Place) : Option String := f.texts.lookup place

def isDirectoryAt (f : Files) (place : Place) : Bool := place.isAbove || f.directories.contains place

def existsAt (f : Files) (place : Place) : Bool := (f.textAt? place).isSome || f.isDirectoryAt place

/-- The place where a path leads, all but its last name being directories. -/
def walk? (f : Files) (place : Place) : List String → Option Place
  | [] => some place
  | name :: names => if f.isDirectoryAt place then walk? f (place.follow name) names else none

/-- The place of a path, whether or not anything is there. -/
def place? (f : Files) (path : String) : Option Place :=
  if path = "" || path.toList.contains (Char.ofNat 0) then none
  else (f.walk? [] (Path.names path)).filter fun place => !Path.isOpenEnded path || f.isDirectoryAt place

def text? (f : Files) (path : String) : Option String := (f.place? path).bind f.textAt?

def isDirectory (f : Files) (path : String) : Bool := (f.place? path).any f.isDirectoryAt

def contains (f : Files) (path : String) : Bool := (f.place? path).any f.existsAt

/-- Puts a text at a place, instead of the one that is there. -/
def put (f : Files) (place : Place) (text : String) : Files :=
  { f with texts := (place, text) :: f.texts.filter (·.1 != place) }

/-- Writes a file, unless its directory is missing or it is a directory itself. -/
def write? (f : Files) (path text : String) : Option Files :=
  match f.place? path with
  | none => none
  | some place => if f.isDirectoryAt place then none else some (f.put place text)

/-- Makes the directories on the way from a place, unless a file is in the way. -/
def makeWay? (f : Files) (place : Place) : List String → Option Files
  | [] => some f
  | name :: names =>
    let next := place.follow name
    if f.isDirectoryAt next then makeWay? f next names
    else if (f.textAt? next).isSome then none
    else makeWay? { f with directories := next :: f.directories } next names

/-- Makes a directory and those above it. -/
def makeDirectory? (f : Files) (path : String) : Option Files :=
  if path.toList.contains (Char.ofNat 0) then none else f.makeWay? [] (Path.names path)

/-- Writes a file and makes the directories above it. -/
def save? (f : Files) (path text : String) : Option Files :=
  (f.makeDirectory? (Path.parent path)).bind (·.write? path text)

/-- Files that hold some texts, where their paths allow it. -/
def ofTexts (texts : List (String × String)) : Files :=
  texts.foldl (fun f (path, text) => (f.save? path text).getD f) {}

/-! ## Reading -/

def read (f : Files) (path : String) : Except FileFault String :=
  match f.text? path with
  | some text => .ok text
  | none => .error (if f.isDirectory path then .inaccessible path else .notFound path)

def isYaml (path : String) : Bool := ["yaml", "yml"].any fun ending => Path.extension? path == some ending

/-- Reads a record from a YAML or JSON file, as the ending of its name says. -/
def record (α : Type) [Record α] (f : Files) (path : String) : Except FileFault α := do
  let text ← f.read path
  let (document, format) :=
    if isYaml path then (Yaml.parse? text, "YAML") else ((Json.parse? text).map Document.ofJson, "JSON")
  match document.bind Record.decode? with
  | some a => .ok a
  | none => .error (.malformed path (format ++ " (of another shape)"))

end Files

end FieldBridge

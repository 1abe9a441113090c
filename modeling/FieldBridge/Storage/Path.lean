import FieldBridge.Text.Split

/-!
# Paths

A path is a text of names between slashes. Empty names and single dots count for
nothing, except that a slash at the start is the root and a dot at the start is the
working directory.
-/

namespace FieldBridge.Path

def isAbsolute (path : String) : Bool := path.toList.head? == some '/'

/-- A piece that names nothing. -/
def isIdle (piece : String) : Bool := piece == "" || piece == "."

/-- What a path starts from, where it says so. -/
def origin (path : String) : List String :=
  if isAbsolute path then ["/"] else ((Text.split "/" path).head?.filter (· == ".")).toList

/-- The names of a path in order, after its origin. -/
def names (path : String) : List String := origin path ++ (Text.split "/" path).filter (!isIdle ·)

/-- Whether a path can only be that of a directory. -/
def isOpenEnded (path : String) : Bool := ((Text.split "/" path).getLast?.any isIdle)

/-- The last name of a path, if it is the name of a file or a directory. -/
def name? (path : String) : Option String := (names path).getLast?.filter fun n => !(["/", ".", ".."].contains n)

/-- A path without its last name and what stands around it; empty where nothing is left. -/
def parent (path : String) : String :=
  let rest := (((Text.split "/" path).reverse.dropWhile isIdle).drop 1).dropWhile isIdle
  if rest.isEmpty then (if (names path).length < 2 then "" else String.join (origin path))
  else Text.join "/" rest.reverse

/-- The directory that a path is in, a dot for the working directory. -/
def directory (path : String) : String := if parent path = "" then "." else parent path

/-- The parts of a name before and after its last dot, unless it has no dot but at its start. -/
def cutName (name : String) : String × Option String :=
  let cs := name.toList.reverse
  let ending := cs.takeWhile (· != '.')
  match cs.dropWhile (· != '.') with
  | '.' :: c :: rest => (String.ofList (c :: rest).reverse, some (String.ofList ending.reverse))
  | _ => (name, none)

/-- The name without its ending. -/
def stem? (path : String) : Option String := (name? path).map fun n => (cutName n).1

/-- The ending of the name, after its last dot. -/
def extension? (path : String) : Option String := (name? path).bind fun n => (cutName n).2

/-- A path inside a directory; an absolute path is inside none. -/
def join (directory path : String) : String :=
  if isAbsolute path || directory = "" then path
  else if directory.toList.getLast? == some '/' then directory ++ path
  else directory ++ "/" ++ path

end FieldBridge.Path

import FieldBridge.CommandLine.Error
import FieldBridge.Rendering.Human
import FieldBridge.Rendering.Table

/-!
# The desk of a command

A command works on files and writes to two texts, its output and its messages. Titles,
tables and remarks are for people only, and are left out when it has to be quiet;
warnings are not.
-/

namespace FieldBridge.CommandLine

structure Desk where
  files : Files
  out : String := ""
  err : String := ""

/-- Work that may fail; what was done before stays done. -/
abbrev Work (α : Type) := ExceptT CommandError (StateM Desk) α

def fail {α : Type} (e : CommandError) : Work α := throw e

/-- Goes on with a result, or fails for the cause that it has. -/
def orFail {α ε : Type} (cause : ε → CommandError) (r : Except ε α) : Work α :=
  match r with
  | .ok a => pure a
  | .error e => fail (cause e)

def writeLine (s : String) : Work Unit := modify fun d => { d with out := d.out ++ s ++ "\n" }

def writeLines (ss : List String) : Work Unit := ss.forM writeLine

/-- How output is written. -/
structure Style where
  format : OutputFormat
  quiet : Bool

namespace Style

def isHuman (s : Style) : Bool := s.format == .human

def remark (s : Style) (line : String) : Work Unit := if s.isHuman && !s.quiet then writeLine line else pure ()

def info (s : Style) (message : String) : Work Unit := s.remark ("INFO: " ++ message)

def warning (s : Style) (message : String) : Work Unit :=
  if s.isHuman then writeLine ("WARNING: " ++ message) else pure ()

def heading (s : Style) (title : String) : Work Unit := do
  s.remark ""
  s.remark ("=== " ++ title ++ " ===")

def table (s : Style) (t : TextTable) : Work Unit := t.lines.forM s.remark

/-- A text as a block, which ends with one line feed. -/
def block (text : String) : Work Unit := writeLine (Text.trimEnd text)

def data (s : Style) (v : Json) : Work Unit := block (s.format.render v)

end Style

end FieldBridge.CommandLine

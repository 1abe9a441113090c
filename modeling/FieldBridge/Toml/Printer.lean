import FieldBridge.Json.Printer

/-!
# Printing TOML

A document is a list of tables of texts, truth values and whole numbers. A text is
written without escapes where some form of quotes allows it.
-/

namespace FieldBridge.Toml

inductive Value where
  | text (s : String)
  | bool (b : Bool)
  | integer (n : Nat)
  deriving DecidableEq, Repr

/-- A table with its name. -/
structure Table where
  name : String
  entries : List (String × Value)
  deriving DecidableEq, Repr

/-- The greatest whole number that can be written. -/
def maxInteger : Nat := 0x8000000000000000 - 1

/-! ## Texts -/

/-- The length of the longest run of a character. -/
def longestRun (c : Char) : Nat → List Char → Nat
  | run, [] => run
  | run, d :: cs => if d = c then longestRun c (run + 1) cs else max run (longestRun c 0 cs)

/-- Characters that only an escape can write. -/
def isControl (c : Char) : Bool := (c.toNat < 0x20 && c != '\t' && c != '\n') || c.toNat == 0x7F

def escapedControl (c : Char) : List Char :=
  match c with
  | '\x08' => ['\\', 'b']
  | '\t' => ['\\', 't']
  | '\n' => ['\\', 'n']
  | '\x0c' => ['\\', 'f']
  | '\r' => ['\\', 'r']
  | '\\' => ['\\', '\\']
  | _ =>
    if isControl c then
      ['\\', 'u', '0', '0', Json.hexDigit (c.toNat / 16), (Json.hexDigit (c.toNat % 16)).toUpper]
    else [c]

/-- The characters between double quotes. -/
def basicBody (cs : List Char) : List Char :=
  cs.flatMap fun c => if c = '"' then ['\\', '"'] else escapedControl c

/-- The characters between three double quotes, with the number of quotes just before them: line
feeds stay, and so do quotes up to two in a row. -/
def longBasicBody : Nat → List Char → List Char
  | _, [] => []
  | quotes, c :: cs =>
    if c = '"' then
      if quotes < 2 then c :: longBasicBody (quotes + 1) cs else '\\' :: '"' :: longBasicBody 0 cs
    else (if c = '\n' then [c] else escapedControl c) ++ longBasicBody 0 cs

def enclosed (delimiter body : List Char) : List Char := delimiter ++ body ++ delimiter

/-- A text of several lines starts on a line of its own. -/
def ownLine (cs : List Char) : List Char := if cs.contains '\n' then ['\n'] else []

def basic (cs : List Char) : List Char := enclosed ['"'] (basicBody cs)

def literal (cs : List Char) : List Char := enclosed ['\''] cs

def longBasic (cs : List Char) : List Char := enclosed ['"', '"', '"'] (ownLine cs ++ longBasicBody 0 cs)

def longLiteral (cs : List Char) : List Char := enclosed ['\'', '\'', '\''] (ownLine cs ++ cs)

/-- Without escapes if that is possible, in the first of four forms that allows it. -/
def quoted (cs : List Char) : List Char :=
  let escapes := cs.any isControl
  let backslash := cs.contains '\\'
  let several := cs.contains '\n'
  if !escapes && !backslash && !several && !cs.contains '"' then basic cs
  else if !escapes && !several && !cs.contains '\'' then literal cs
  else if !escapes && !backslash && longestRun '"' 0 cs ≤ 2 then longBasic cs
  else if !escapes && longestRun '\'' 0 cs ≤ 2 then longLiteral cs
  else if several then longBasic cs
  else basic cs

/-! ## Documents -/

def Value.chars : Value → List Char
  | text s => quoted s.toList
  | bool b => (toString b).toList
  | integer n => (toString n).toList

def Table.chars (t : Table) : List Char :=
  '[' :: t.name.toList ++ ']' :: '\n' ::
    t.entries.flatMap fun e => e.1.toList ++ [' ', '=', ' '] ++ e.2.chars ++ ['\n']

/-- Tables one after another, an empty line between them; nothing where a number is too large. -/
def print? (tables : List Table) : Option String :=
  let fits : Value → Bool
    | .integer n => n ≤ maxInteger
    | _ => true
  if tables.all fun t => t.entries.all fun e => fits e.2 then
    some (String.ofList (['\n'].intercalate (tables.map Table.chars)))
  else none

end FieldBridge.Toml

import FieldBridge.Conversion.Options
import FieldBridge.Json.Parser
import FieldBridge.Text.Blank
import FieldBridge.Text.Split

/-!
# Values and options by hand

A value is JSON where it can be read as JSON, and a text otherwise. Options are a JSON
object, or pairs of a name and a value between commas.
-/

namespace FieldBridge.Argument

def value (raw : String) : Json := (Json.value? raw).getD (.string raw)

/-- Why a text gives no options. -/
inductive Fault where
  | notJson
  | notPair (piece : String)
  deriving DecidableEq, Repr

def Fault.message : Fault → String
  | notJson => "JSON error: the options are no JSON"
  | notPair piece => s!"Invalid arguments: invalid option '{piece}', expected key=value"

def isNameStart (c : Char) : Bool := c.isAlpha || c == '_'

def isNameChar (c : Char) : Bool := c.isAlphanum || c == '_'

/-- A name and a value with an equals sign between. The value holds no line feed. -/
def pair? (piece : List Char) : Option (String × Json) :=
  let start := piece.dropWhile Text.isBlank
  let name := start.takeWhile isNameChar
  match (start.dropWhile isNameChar).dropWhile Text.isBlank with
  | '=' :: raw =>
    if name.head?.any isNameStart && !raw.contains '\n' then
      some (String.ofList name, value (String.ofList (Text.trimmed raw)))
    else none
  | _ => none

def pair (piece : List Char) : Except Fault (String × Json) :=
  match pair? piece with
  | some p => .ok p
  | none => .error (.notPair (String.ofList (Text.trimmed piece)))

/-- The pairs between commas, blank pieces being skipped. -/
def pairs (cs : List Char) : Except Fault (List (String × Json)) :=
  ((Text.pieces [','] cs).filter fun piece => !piece.all Text.isBlank).mapM pair

/-- Of several values for one name the last counts. -/
def options (raw : String) : Except Fault Options :=
  match Text.trimmed raw.toList with
  | '\x7b' :: cs =>
    match Json.value? (String.ofList ('\x7b' :: cs)) with
    | some v => .ok (.ofJson v)
    | none => .error .notJson
  | cs => (pairs cs).map fun found => ⟨Keyed.ofList found⟩

end FieldBridge.Argument

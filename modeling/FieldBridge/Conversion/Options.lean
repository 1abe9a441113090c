import FieldBridge.Json.Basic

/-!
# Options of a conversion

A bag of JSON values under names. An option that is `null` counts as absent. An option
of the wrong type is a failure that names the option and what was expected.
-/

namespace FieldBridge

/-- What an option has to be. -/
inductive Expected where
  | text
  | boolean
  | index
  | numberMode
  | datePattern
  deriving DecidableEq, Repr

def Expected.description : Expected → String
  | text => "string"
  | boolean => "boolean"
  | index => "non-negative integer"
  | numberMode => "\"float\" or \"integer\""
  | datePattern => "a valid chrono format string"

/-- Why a conversion gives no value. -/
inductive Failure where
  | invalidOption (option : String) (expected : Expected)
  | rejected (reason : String)
  deriving DecidableEq, Repr

def Failure.message : Failure → String
  | invalidOption option expected => s!"Invalid option '{option}': expected {expected.description}"
  | rejected reason => s!"Cannot transform value: {reason}"

structure Options where
  entries : Keyed Json
  deriving DecidableEq

namespace Options

def empty : Options := ⟨[]⟩

/-- The members of an object; any other value gives no options. -/
def ofJson : Json → Options
  | .object members => ⟨members⟩
  | _ => empty

def toJson (o : Options) : Json := .object o.entries

def isEmpty (o : Options) : Bool := o.entries.isEmpty

def get? (key : String) (o : Options) : Option Json := (Keyed.find? key o.entries).filter (!·.isNull)

def text (o : Options) (key default : String) : Except Failure String :=
  match o.get? key with
  | none => .ok default
  | some (.string s) => .ok s
  | some _ => .error (.invalidOption key .text)

def flag (o : Options) (key : String) (default : Bool) : Except Failure Bool :=
  match o.get? key with
  | none => .ok default
  | some (.bool b) => .ok b
  | some _ => .error (.invalidOption key .boolean)

def index (o : Options) (key : String) (default : Nat) : Except Failure Nat :=
  match o.get? key with
  | none => .ok default
  | some (.number n) => match n.toNat? with
    | some i => .ok i
    | none => .error (.invalidOption key .index)
  | some _ => .error (.invalidOption key .index)

def value (o : Options) (key : String) (default : Json) : Json := (o.get? key).getD default

end Options

end FieldBridge

import FieldBridge.Conversion.Basic

/-!
# Errors

Everything that can go wrong in the engine, by cause, and the text of each.
-/

namespace FieldBridge

/-- Why a conversion is not taken into a catalog. -/
inductive Refusal where
  | blankId
  | noName
  | noFunction
  | noExample
  | idTaken
  | direct (source target : Kind)
  | pairTaken (source target : Kind) (holder : String)
  deriving DecidableEq, Repr

def Refusal.message : Refusal → String
  | blankId => "id must not be empty"
  | noName => "name is required"
  | noFunction => "transform function is required"
  | noExample => "example is required"
  | idTaken => "id is already registered"
  | direct source target => s!"{source.name} is directly compatible with {target.name}"
  | pairTaken source target holder => s!"{source.name} -> {target.name} is already handled by '{holder}'"

inductive Error where
  | unknownKind (name : String)
  | duplicateField (id set : String)
  | registration (id : String) (refusal : Refusal)
  | conversionNotFound (id : String)
  | conversionFailed (id : String) (failure : Failure)
  | zeroCapacity
  | unknownFormat (name : String)
  | noIterations (id : String)
  | cancelled (completed total : Nat)
  | unreadable
  | unwritable
  deriving DecidableEq, Repr

def Error.message : Error → String
  | unknownKind name => s!"Unknown field kind: '{name}'"
  | duplicateField id set => s!"Duplicate field id '{id}' in {set} field set"
  | registration id refusal => s!"Cannot register transformation '{id}': {refusal.message}"
  | conversionNotFound id => s!"Transformation not found: {id}"
  | conversionFailed id failure => s!"Transformation '{id}' failed: {failure.message}"
  | zeroCapacity => "Configuration error: cache capacity must be at least 1"
  | unknownFormat name => s!"Configuration error: unknown export format '{name}', expected json or csv"
  | noIterations id => s!"Invalid benchmark for '{id}': iterations must be at least 1"
  | cancelled completed total => s!"Benchmark cancelled after {completed} of {total} runs"
  | unreadable => "JSON error: the text is not an export"
  | unwritable => "IO error: the file cannot be written"

end FieldBridge

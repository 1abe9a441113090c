import FieldBridge.Calendar.Instant
import FieldBridge.Conversion.Options

/-!
# Mappings

A rule feeds a destination field from a source field, with a conversion of its own
choice or the one for the two kinds. A configuration is a saved list of rules for one
database.
-/

namespace FieldBridge

structure MappingRule where
  destination : String
  source : String
  conversion : Option String := none
  options : Option Options := none
  deriving DecidableEq

structure MappingConfiguration where
  id : String
  name : String
  database : String
  rules : List MappingRule := []
  galleryItems : Option Nat := none
  onboarded : Bool := false
  createdAt : Instant
  updatedAt : Instant
  deriving DecidableEq

/-- Why a rule gave no value. -/
inductive IssueKind where
  | missingSourceValue
  | unknownField
  | incompatible
  deriving DecidableEq, Repr

namespace IssueKind

def all : List IssueKind := [missingSourceValue, unknownField, incompatible]

def name : IssueKind → String
  | missingSourceValue => "missing_source_value"
  | unknownField => "unknown_field"
  | incompatible => "incompatible"

end IssueKind

structure MappingIssue where
  destination : String
  source : String
  kind : IssueKind
  message : String
  deriving DecidableEq

/-- The values of the destination fields made from one record, and what went wrong. -/
structure MappedRecord where
  values : Keyed Json
  issues : List MappingIssue
  deriving DecidableEq

end FieldBridge

import FieldBridge.Field.Kind

/-!
# Fields

A field has an id, a name for people and a kind. Source fields belong to a database,
destination fields to the page of a case study, whose schema is fixed.
-/

namespace FieldBridge

structure Field where
  id : String
  name : String
  kind : Kind
  required : Bool := false
  description : Option String := none
  deriving DecidableEq, Repr

/-- A field of a database, with the property type that the database reports. -/
structure SourceField extends Field where
  propertyType : Option String := none
  deriving DecidableEq, Repr

/-- The parts of a case-study page. -/
inductive Section where
  | hero
  | mainInfo
  | gallery
  deriving DecidableEq, Repr

namespace Section

def all : List Section := [hero, mainInfo, gallery]

def name : Section → String
  | hero => "hero"
  | mainInfo => "main_info"
  | gallery => "gallery"

end Section

/-- A field of a case-study page, with a bound on the length of its texts. -/
structure DestinationField extends Field where
  part : Option Section := none
  maxLength : Option Nat := none
  deriving DecidableEq, Repr

/-- The source field of a database property. -/
def SourceField.ofProperty? (id name propertyType : String) : Option SourceField :=
  (Kind.ofPropertyType? propertyType).map fun kind =>
    { id := id, name := name, kind := kind, propertyType := some propertyType }

/-- The fields of every case-study page. -/
def caseStudySchema : List DestinationField :=
  [ { id := "hero_image", name := "Hero image/video", kind := .image, required := true, part := some .hero },
    { id := "project_name", name := "Project name", kind := .text, required := true, part := some .mainInfo },
    { id := "tagline", name := "Tagline", kind := .text, part := some .mainInfo, maxLength := some 120 },
    { id := "description", name := "Description", kind := .richText, required := true, part := some .mainInfo },
    { id := "services", name := "Services", kind := .multiSelect, part := some .mainInfo },
    { id := "gallery", name := "Image/video gallery", kind := .files, part := some .gallery } ]

end FieldBridge

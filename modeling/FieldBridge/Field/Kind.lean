/-!
# Field kinds

The closed set of shapes that the value of a field can have, their names and labels,
and which kinds a destination accepts as they are.
-/

namespace FieldBridge

inductive Kind where
  | text
  | richText
  | title
  | number
  | date
  | checkbox
  | select
  | multiSelect
  | url
  | email
  | phoneNumber
  | person
  | files
  | image
  | formula
  | relation
  | rollup
  | createdTime
  | createdBy
  | lastEditedTime
  | lastEditedBy
  | status
  deriving DecidableEq, Repr

namespace Kind

def all : List Kind :=
  [text, richText, title, number, date, checkbox, select, multiSelect, url, email, phoneNumber, person, files, image,
    formula, relation, rollup, createdTime, createdBy, lastEditedTime, lastEditedBy, status]

/-- The name of a kind in data. -/
def name : Kind → String
  | text => "text"
  | richText => "rich_text"
  | title => "title"
  | number => "number"
  | date => "date"
  | checkbox => "checkbox"
  | select => "select"
  | multiSelect => "multi_select"
  | url => "url"
  | email => "email"
  | phoneNumber => "phone_number"
  | person => "person"
  | files => "files"
  | image => "image"
  | formula => "formula"
  | relation => "relation"
  | rollup => "rollup"
  | createdTime => "created_time"
  | createdBy => "created_by"
  | lastEditedTime => "last_edited_time"
  | lastEditedBy => "last_edited_by"
  | status => "status"

/-- The name of a kind for people. -/
def label : Kind → String
  | text => "Text"
  | richText => "Rich text"
  | title => "Title"
  | number => "Number"
  | date => "Date"
  | checkbox => "Checkbox"
  | select => "Select"
  | multiSelect => "Multi-select"
  | url => "URL"
  | email => "Email"
  | phoneNumber => "Phone number"
  | person => "Person"
  | files => "Files"
  | image => "Image"
  | formula => "Formula"
  | relation => "Relation"
  | rollup => "Rollup"
  | createdTime => "Created time"
  | createdBy => "Created by"
  | lastEditedTime => "Last edited time"
  | lastEditedBy => "Last edited by"
  | status => "Status"

def ofName? (name : String) : Option Kind := all.find? (·.name == name)

/-- The kind of a database property; the properties that hold persons are called `people`. -/
def ofPropertyType? (propertyType : String) : Option Kind :=
  if propertyType = "people" then some person else ofName? propertyType

theorem mem_all (k : Kind) : k ∈ all := by cases k <;> decide

theorem ofName?_name (k : Kind) : ofName? k.name = some k := by cases k <;> decide

/-! ## Direct compatibility -/

/-- The kinds besides itself that a destination kind accepts unchanged. -/
def directSources : Kind → List Kind
  | title => [text, richText]
  | text | richText => [title]
  | createdTime | lastEditedTime => [date]
  | createdBy | lastEditedBy => [person]
  | status => [select]
  | _ => []

/-- Whether values of kind `source` can stand in a `destination` field unchanged. -/
def accepts (destination source : Kind) : Bool :=
  destination == source || destination.directSources.contains source

end Kind

end FieldBridge

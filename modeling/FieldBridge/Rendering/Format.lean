import FieldBridge.Json.Printer
import FieldBridge.Yaml.Printer

/-!
# Output formats

Results are written for people or as data in JSON or YAML.
-/

namespace FieldBridge

inductive OutputFormat where
  | human
  | json
  | yaml
  | jsonPretty
  deriving DecidableEq, Repr

namespace OutputFormat

def all : List OutputFormat := [human, json, yaml, jsonPretty]

def name : OutputFormat → String
  | human => "human"
  | json => "json"
  | yaml => "yaml"
  | jsonPretty => "json-pretty"

/-- A value as data; for people it is indented. -/
def render (f : OutputFormat) (v : Json) : String :=
  match f with
  | json => v.compact
  | yaml => Yaml.print v
  | human | jsonPretty => v.pretty

end OutputFormat

end FieldBridge

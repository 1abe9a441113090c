import FieldBridge.Advice.Record
import FieldBridge.Mapping.Record
import FieldBridge.Rendering.Format

/-!
# Results for people

Classifications, validations and summaries have a form of their own for people. In the
other formats they are written as data.
-/

namespace FieldBridge

def lines (ls : List String) : String := String.join (ls.map (· ++ "\n"))

/-! ## Compatibility -/

namespace Status

def label : Status → String
  | compatible => "compatible"
  | requiresConversion => "requires transformation"
  | incompatible => "incompatible"

def icon : Status → String
  | compatible => "✅"
  | requiresConversion => "🔄"
  | incompatible => "❌"

end Status

def Compatibility.forPeople (c : Compatibility) : String :=
  lines ([c.status.icon ++ " " ++ c.status.label] ++
    (c.conversion.map fun id => "  Transformation: " ++ id).toList ++ ["  " ++ c.message])

/-! ## Validations -/

namespace Outcome

def detail : Outcome → String
  | unknownSource => "unknown source field"
  | unknownDestination => "unknown destination field"
  | checked result =>
    match result.conversion with
    | some id => result.status.label ++ " via " ++ id
    | none => if result.isMappable then result.status.label else result.message

end Outcome

namespace Validation

def line (v : Validation) : String :=
  let mark := if v.isValid then "✓" else "✗"
  s!"  {mark} {v.destination} ← {v.source}: {v.outcome.detail}"

def verdict (vs : List Validation) : String :=
  let invalid := vs.countP fun v => !v.isValid
  if invalid = 0 then s!"✅ All {vs.length} mapping(s) are valid"
  else s!"❌ {invalid} of {vs.length} mapping(s) are invalid"

def forPeople (vs : List Validation) : String := lines (verdict vs :: "" :: vs.map line)

end Validation

/-! ## Summaries -/

def Level.light : Level → String
  | high => "🔴"
  | medium => "🟡"
  | low => "🟢"

/-- One piece of advice, with the values before and after it where both are given. -/
def Advice.line (a : Advice) : String :=
  let change := match a.current, a.suggested with
    | some current, some suggested => s!" ({current} → {suggested})"
    | _, _ => ""
  "  " ++ a.impact.light ++ " " ++ a.description ++ change

namespace Summary

/-- A percentage with two places. -/
def percent (x : Float) : String := Decimal.fixed 2 x ++ "%"

def performanceLines (p : Performance) : List String :=
  ["📊 Cache Performance:", s!"  Transformations analyzed: {p.analyzed}",
    "  Average improvement: " ++ percent p.average] ++
  (p.bestName.map fun name => "  Best: " ++ name ++ " (" ++ percent p.best ++ ")").toList ++
  (p.worstName.map fun name => "  Worst: " ++ name).toList

def cacheLines (c : CacheSnapshot) : List String :=
  ["🗄️  Cache:", s!"  Entries: {c.size}/{c.capacity}",
    s!"  Hits: {c.hits}  Misses: {c.misses}  Hit rate: " ++ Decimal.fixed 1 (c.hitRate * 100.0) ++ "%"]

def adviceLines : List Advice → List String
  | [] => ["✅ No recommendations"]
  | advice => s!"💡 Recommendations ({advice.length}):" :: advice.map Advice.line

def forPeople (s : Summary) : String :=
  lines (performanceLines s.performance ++ "" :: cacheLines s.cache ++ "" :: adviceLines s.advice)

end Summary

/-! ## In a format -/

namespace OutputFormat

/-- The form for people, or the data of a record. -/
def choose {α : Type} [Record α] (f : OutputFormat) (forPeople : α → String) (a : α) : String :=
  if f = human then forPeople a else f.render (Record.encode a)

def compatibility (f : OutputFormat) : Compatibility → String := f.choose Compatibility.forPeople

def validations (f : OutputFormat) : List Validation → String := f.choose Validation.forPeople

def summary (f : OutputFormat) : Summary → String := f.choose Summary.forPeople

end OutputFormat

end FieldBridge

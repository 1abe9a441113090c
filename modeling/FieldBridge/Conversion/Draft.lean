import FieldBridge.Error
import FieldBridge.Text.Blank

/-!
# Drafts of conversions

What is known so far about a conversion. A draft becomes a conversion once it has an
id, a name, a function and an example.
-/

namespace FieldBridge

structure Draft where
  id : String
  source : Kind
  target : Kind
  name : Option String := none
  description : String := ""
  impact : Level := .low
  complexity : Level := .low
  benchmarkable : Bool := true
  run : Option (Json → Options → Except Failure Json) := none
  sample : Option Example := none

/-- The conversion of a complete draft, or the first thing that it lacks. -/
def Draft.build (d : Draft) : Except Error Conversion :=
  if Text.isBlankText d.id then .error (.registration d.id .blankId)
  else
    match d.name.filter (!Text.isBlankText ·), d.run, d.sample with
    | none, _, _ => .error (.registration d.id .noName)
    | _, none, _ => .error (.registration d.id .noFunction)
    | _, _, none => .error (.registration d.id .noExample)
    | some name, some run, some sample =>
      .ok { id := d.id, source := d.source, target := d.target, name := name, description := d.description,
            impact := d.impact, complexity := d.complexity, benchmarkable := d.benchmarkable, run := run,
            sample := sample }

end FieldBridge

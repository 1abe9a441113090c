import FieldBridge.Advice.Record
import FieldBridge.Benchmark.Record
import FieldBridge.Export.Csv
import FieldBridge.Json.Parser
import FieldBridge.Json.Printer
import FieldBridge.Text.Case

/-!
# Exports

Results of benchmarks are exported as rows or as a JSON envelope, which can be read
back. The text of an envelope is indented, its members sorted, and its time stamp cut
to milliseconds.
-/

namespace FieldBridge

inductive ExportFormat where
  | json
  | csv
  deriving DecidableEq, Repr

namespace ExportFormat

def all : List ExportFormat := [json, csv]

/-- The name of a format, which is also the ending of its files. -/
def name : ExportFormat → String
  | json => "json"
  | csv => "csv"

/-- Letters A to Z count in either case. -/
def parse (s : String) : Except Error ExportFormat :=
  let s := Text.lowerAscii s
  match all.find? (·.name == s) with
  | some f => .ok f
  | none => .error (.unknownFormat s)

end ExportFormat

structure Envelope where
  timestamp : Option Instant := none
  results : List BenchmarkResult
  summary : Option Summary := none

instance : Record Envelope where
  encode e := .object (Record.memberIf "timestamp" e.timestamp ++ Record.member "benchmarkResults" e.results ++
    Record.memberIf "optimizationSummary" e.summary)
  decode? d := do
    match ← d.slots? [Record.lastSlot "timestamp", Record.slot "benchmarkResults",
        Record.lastSlot "optimizationSummary"] with
    | [timestamp, results, summary] =>
      some ⟨← Record.ifAny timestamp, ← Record.needed results, ← Record.ifAny summary⟩
    | _ => none

namespace Envelope

/-- The JSON tree of an envelope, with its time stamp to the millisecond. -/
def toJson (e : Envelope) : Json :=
  match e.timestamp, (Record.encode e).normalize with
  | some t, .object members => .object (Keyed.insert "timestamp" (.string t.millisText) members)
  | _, v => v

def text (e : Envelope) : String := e.toJson.pretty

/-- Reads the text of an envelope back. -/
def load (text : String) : Except Error Envelope :=
  match (Json.parse? text).bind fun v => Record.decode? (Document.ofJson v) with
  | some e => .ok e
  | none => .error .unreadable

end Envelope

/-- Results in a format; only an envelope holds a summary and a time stamp. -/
def exportText (format : ExportFormat) (timestamp : Option Instant) (results : List BenchmarkResult)
    (summary : Option Summary) : String :=
  match format with
  | .json => Envelope.text ⟨timestamp, results, summary⟩
  | .csv => Csv.text results

/-- The name of an export file: a base, a time where one is given, and the ending. -/
def exportFileName (base : String) (format : ExportFormat) (timestamp : Option Instant) : String :=
  match timestamp with
  | some t => base ++ "-" ++ t.stamp ++ "." ++ format.name
  | none => base ++ "." ++ format.name

end FieldBridge

import FieldBridge.Benchmark.Basic
import FieldBridge.Decimal.Nearest
import FieldBridge.Decimal.Places
import FieldBridge.Text.Split

/-!
# Results as comma-separated values

A header row and then a row for each result, each ended by a line feed. A field is
quoted unless it spells a number; a quote inside is written twice.
-/

namespace FieldBridge.Csv

def quoteChar (c : Char) : List Char := if c = '"' then ['"', '"'] else [c]

def field (s : String) : String :=
  if (Decimal.float? s).isSome then s else String.ofList ('"' :: s.toList.flatMap quoteChar ++ ['"'])

def row (fields : List String) : String := Text.join "," (fields.map field) ++ "\n"

def header : List String :=
  ["Transformation", "Source Kind", "Target Kind", "Iterations", "Total Time (ms)", "Average Time (ms)", "Cached",
    "Samples", "Failures"]

def fields (r : BenchmarkResult) : List String :=
  [r.name, r.source.name, r.target.name, toString r.iterations, Decimal.fixed 2 r.totalTime,
    Decimal.fixed 2 r.averageTime, if r.cached then "Yes" else "No", toString r.samples, toString r.failures]

def text (results : List BenchmarkResult) : String :=
  String.join (row header :: results.map fun r => row (fields r))

end FieldBridge.Csv

import FieldBridge.Conversion.Draft
import FieldBridge.Main
import FieldBridge.Proofs.Decimal.Rounding
import FieldBridge.Proofs.Decimal.Shortest
import FieldBridge.Proofs.Decimal.Text
import FieldBridge.Proofs.Json.Value
import FieldBridge.Proofs.Json.Compact
import FieldBridge.Proofs.Cache.Key
import FieldBridge.Proofs.Cache.Representation
import FieldBridge.Proofs.Cache.Queue
import FieldBridge.Proofs.Field.Table
import FieldBridge.Proofs.Mapping.Run
import FieldBridge.Proofs.Conversion.Catalog
import FieldBridge.Proofs.Benchmark.Samples
import FieldBridge.Proofs.Conversion.Transparency
import FieldBridge.Proofs.Benchmark.Transparency
import FieldBridge.Proofs.Mapping.Transparency
import FieldBridge.Proofs.Session
import FieldBridge.Proofs.Cache.Invariant
import FieldBridge.Proofs.Conversion.Registration
import FieldBridge.Proofs.Cache.Accounting
import FieldBridge.Proofs.Cache.Survival
import FieldBridge.Proofs.Cache.Counting
import FieldBridge.Proofs.Conversion.Classification
import FieldBridge.Proofs.Mapping.Independence
import FieldBridge.Proofs.Benchmark.Cost
import FieldBridge.Proofs.Benchmark.Thrashing
import FieldBridge.Proofs.Benchmark.Failures
import FieldBridge.Proofs.Benchmark.Course
import FieldBridge.Proofs.Benchmark.Timing
import FieldBridge.Proofs.Decimal.Dyadic
import FieldBridge.Proofs.Advice.Settings
import FieldBridge.Proofs.Advice.Coverage
import FieldBridge.Proofs.Calendar.Date
import FieldBridge.Proofs.Calendar.Instant
import FieldBridge.Proofs.Json.Number
import FieldBridge.Proofs.Json.Reading
import FieldBridge.Proofs.Document.Record
import FieldBridge.Proofs.Export.Envelope
import FieldBridge.Proofs.Text.Blank
import FieldBridge.Proofs.Text.Split
import FieldBridge.Proofs.Storage.Path
import FieldBridge.Proofs.Storage.Files
import FieldBridge.Proofs.Mapping.Store
import FieldBridge.Proofs.Mapping.Loading
import FieldBridge.Proofs.Advice.Lifetime
import FieldBridge.Proofs.CommandLine.Argument
import FieldBridge.Proofs.CommandLine.Options
import FieldBridge.Proofs.Decimal.Places
import FieldBridge.Proofs.Export.Csv
import FieldBridge.Proofs.Mapping.Required
import FieldBridge.Proofs.Conversion.Demands
import FieldBridge.Proofs.Conversion.Choices
import FieldBridge.Proofs.Conversion.Paths
import FieldBridge.Proofs.Conversion.Markup
import FieldBridge.Proofs.Conversion.Address
import FieldBridge.Proofs.Calendar.Reading
import FieldBridge.Proofs.Conversion.Dates
import FieldBridge.Proofs.Decimal.Whole
import FieldBridge.Proofs.Conversion.Numbers
import FieldBridge.Proofs.Advice.Direction
import FieldBridge.Proofs.Advice.Attribution
import FieldBridge.Proofs.Advice.Ranking
import FieldBridge.Proofs.Advice.Shares
import FieldBridge.Proofs.Conversion.Order
import FieldBridge.Proofs.Advice.Leaders
import FieldBridge.Proofs.Calendar.Succession
import FieldBridge.Proofs.Benchmark.Repetition

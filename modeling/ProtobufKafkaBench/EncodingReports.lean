import ProtobufKafkaBench.CompilerReport
import ProtobufKafkaBench.Percentiles

/-!
The reports on the encoding tables: libraries, registry framing, concurrency, value
distributions and decimal representations. Each groups its rows, sorts the groups
and prints one line for each, with the throughput of the group among its cells.
Arithmetic is exact.
-/
namespace ProtobufKafkaBench.EncodingReports

open AsyncReports ByteBuffers CompilerReport CsvTables Exceptions Grouping Percentiles
open KafkaReports (intText readMetadata)

section Tables

def floats (rows : List DictRow) (name : Bytes) : Except PyError (List ℚ) :=
  rows.mapM fun row => row.floatItem name

/-- `values[-1][name]`, of a group that is never empty. -/
def lastItem (rows : List DictRow) (name : Bytes) : Except PyError (Option Bytes) :=
  match rows.getLast? with
  | none => .error .valueError
  | some row => row.item name

/-- `int(values[-1][name])`. -/
def lastInt (rows : List DictRow) (name : Bytes) : Except PyError ℤ :=
  match rows.getLast? with
  | none => .error .valueError
  | some row => row.intItem name

/-- `sorted(items, key=...)` over keys that may fail to be computed. -/
def sortedBy {α κ : Type} (le : κ → κ → Bool) (key : α → Except PyError κ) (items : List α) :
    Except PyError (List α) := do
  let keyed ← items.mapM fun item => do return (← key item, item)
  return (keyed.insertionSort fun a b => le a.1 b.1 = true).map Prod.snd

end Tables

namespace Report

structure MeasuredRow where
  row : DictRow
  ns : ℚ
  mps : ℚ

/-- The loop body over the rows: two columns are converted, then the key is read. -/
def measuredRow (row : DictRow) : Except PyError (ConfigKey × MeasuredRow) := do
  let ns ← row.floatItem (ascii "ns_per_encode")
  let mps := (← row.floatItem (ascii "encodes_per_second")) / 1000000
  let key ← configKey row
  return (key, { row, ns, mps })

structure Summary where
  key : ConfigKey
  repetitions : ℕ
  bytes : ℤ
  meanNs : ℚ
  medianNs : ℚ
  minNs : ℚ
  maxNs : ℚ
  meanMps : ℚ
  deriving DecidableEq

def summary (group : ConfigKey × List MeasuredRow) : Except PyError Summary := do
  let nsValues := group.2.map MeasuredRow.ns
  let bytes ← lastInt (group.2.map MeasuredRow.row) (ascii "bytes")
  let meanNs ← statistic (Means.mean nsValues)
  let medianNs ← statistic (Medians.median nsValues)
  let minNs ← statistic nsValues.min?
  let maxNs ← statistic nsValues.max?
  let meanMps ← statistic (Means.mean (group.2.map MeasuredRow.mps))
  return {
    key := group.1
    repetitions := group.2.length
    bytes, meanNs, medianNs, minNs, maxNs, meanMps }

def summaries (rows : List DictRow) : Except PyError (List Summary) := do
  let entries ← rows.mapM measuredRow
  let groups := (groupRows Prod.fst entries).map fun group => (group.1, group.2.map Prod.snd)
  groups.mapM summary

/-- The loop body of `fastest_by_case`: `setdefault`, then the strict comparison. -/
def improve (item : Summary) : List (Option Bytes × Summary) → List (Option Bytes × Summary)
  | [] => [(item.key.testCase, item)]
  | (testCase, fastest) :: rest =>
    if testCase = item.key.testCase then
      (testCase, if item.medianNs < fastest.medianNs then item else fastest) :: rest
    else (testCase, fastest) :: improve item rest

def fastestByCase (items : List Summary) : List (Option Bytes × Summary) :=
  items.foldl (fun fastest item => improve item fastest) []

def verdict (items : List Summary) : Except PyError (List Summary) := do
  let fastest := fastestByCase items
  let cases ← sortedTexts (fastest.map Prod.fst)
  return cases.filterMap fun testCase => fastest.lookup testCase

/-- `sorted(summaries, key=...)` by test case and median. -/
def fullTable (items : List Summary) : Except PyError (List Summary) :=
  if items.all fun a => items.all fun b => ordered a.key.testCase b.key.testCase then
    sortedBy (fun a b : Bytes × ℚ => a.1 < b.1 ∨ a.1 = b.1 ∧ a.2 ≤ b.2)
      (fun item => return (item.key.testCase.getD [], item.medianNs)) items
  else .error .typeError

/-- The rows of one kind, case by case, each relative to the fastest of its case. -/
def relativeTable (items : List Summary) : Except PyError (List (Summary × ℚ)) := do
  let cases ← sortedTexts (items.map fun item => item.key.testCase)
  let lines ← cases.mapM fun testCase => do
    let caseRows := items.filter fun item => item.key.testCase = testCase
    let fastest ← statistic (caseRows.map Summary.medianNs).min?
    let sorted := caseRows.insertionSort fun a b => a.medianNs ≤ b.medianNs
    sorted.mapM fun item => do return (item, ← divide item.medianNs fastest)
  return lines.flatten

structure Output where
  iterations : Bytes
  repetitions : Bytes
  warmupIterations : Bytes
  verdict : List Summary
  full : List Summary
  protobuf : List (Summary × ℚ)
  json : List (Summary × ℚ)

/-- `main` of the encoding report. -/
def report (csv : CsvFile) (metadata : Bytes) : Except PyError Output := do
  let items ← summaries csv.rows
  let value (name : String) := (readMetadata metadata (ascii name)).getD (ascii "?")
  let kind (name : String) := items.filter fun item => item.key.kind = some (ascii name)
  let verdict ← verdict items
  let full ← fullTable items
  let protobuf ← relativeTable (kind "protobuf")
  let json ← relativeTable (kind "json")
  return {
    iterations := value "iterations"
    repetitions := value "repetitions"
    warmupIterations := value "warmup_iterations"
    verdict, full, protobuf, json }

end Report

namespace RegistryReport

structure PathKey where
  api : Option Bytes
  testCase : Option Bytes
  deriving DecidableEq

def pathKey (row : DictRow) : Except PyError PathKey := do
  let api ← row.item (ascii "api")
  let testCase ← row.item (ascii "test_case")
  return { api, testCase }

structure SteadySummary where
  repetitions : ℕ
  bytes : ℤ
  median : ℚ
  mean : ℚ
  p95 : ℚ
  mps : ℚ
  deriving DecidableEq

def steadySummary (rows : List DictRow) : Except PyError SteadySummary := do
  let values ← floats rows (ascii "ns_per_encode")
  let bytes ← lastInt rows (ascii "bytes")
  let median ← statistic (Medians.median values)
  let mean ← statistic (Means.mean values)
  let p95 ← statistic (Percentiles.RegistryReport.percentile values (95 / 100))
  let mps ← divide 1000000000 mean
  return { repetitions := rows.length, bytes, median, mean, p95, mps }

/-- `row["iterations"] != "1"`. -/
def isSteady (row : DictRow) : Except PyError Bool := do
  return decide ((← row.item (ascii "iterations")) ≠ some (ascii "1"))

def steadyRows (rows : List DictRow) : Except PyError (List DictRow) := rows.filterM isSteady

/-- The table of the cached paths, sorted by test case and median. -/
def cachedPaths (csv : CsvFile) : Except PyError (List (PathKey × SteadySummary)) := do
  let groups ← groupRowsM pathKey (← steadyRows csv.rows)
  let keyed ← groups.mapM fun group => do return (group.1, ← steadySummary group.2)
  if keyed.all fun a => keyed.all fun b => ordered a.1.testCase b.1.testCase then
    sortedBy (fun a b : Bytes × ℚ => a.1 < b.1 ∨ a.1 = b.1 ∧ a.2 ≤ b.2)
      (fun line => return (line.1.testCase.getD [], line.2.median)) keyed
  else .error .typeError

end RegistryReport

namespace ConcurrencyReport

structure ModeKey where
  mode : Option Bytes
  threads : Option Bytes
  deriving DecidableEq

def modeKey (row : DictRow) : Except PyError ModeKey := do
  let mode ← row.item (ascii "mode")
  let threads ← row.item (ascii "threads")
  return { mode, threads }

structure Line where
  key : ModeKey
  repetitions : ℕ
  bytes : Option Bytes
  median : ℚ
  mean : ℚ
  mps : ℚ
  deriving DecidableEq

/-- `1_000_000_000 / value / 1_000_000`. -/
def rate (value : ℚ) : Except PyError ℚ := do return (← divide 1000000000 value) / 1000000

def line (group : ModeKey × List DictRow) : Except PyError Line := do
  let samples ← floats group.2 (ascii "ns_per_encode")
  let bytes ← lastItem group.2 (ascii "bytes")
  let median ← statistic (Medians.median samples)
  let mean ← statistic (Means.mean samples)
  let mps ← statistic (Means.mean (← samples.mapM rate))
  return { key := group.1, repetitions := group.2.length, bytes, median, mean, mps }

/-- `int(item[0][1])`. -/
def threadCount (threads : Option Bytes) : Except PyError ℤ :=
  match threads with
  | none => .error .typeError
  | some text => intText text

/-- `main` on the files of the pattern, in path order. -/
def report (files : List CsvFile) : Except PyError (List Line) := do
  let groups ← groupRowsM modeKey (files.flatMap CsvFile.rows)
  let counts ← groups.mapM fun group => threadCount group.1.threads
  if groups.all fun a => groups.all fun b => ordered a.1.mode b.1.mode then
    let sorted := (counts.zip groups).insertionSort fun a b =>
      a.2.1.mode.getD [] < b.2.1.mode.getD [] ∨ a.2.1.mode = b.2.1.mode ∧ a.1 ≤ b.1
    sorted.mapM fun entry => line entry.2
  else .error .typeError

end ConcurrencyReport

namespace DistributionReport

structure Line where
  distribution : Option Bytes
  repetitions : ℕ
  meanBytes : ℚ
  median : ℚ
  mean : ℚ
  mps : ℚ
  deriving DecidableEq

def line (group : Option Bytes × List DictRow) : Except PyError Line := do
  let samples ← floats group.2 (ascii "ns_per_encode")
  let meanBytes ← statistic (Means.mean (← floats group.2 (ascii "mean_bytes")))
  let median ← statistic (Medians.median samples)
  let mean ← statistic (Means.mean samples)
  let mps ← statistic (Means.mean (← samples.mapM ConcurrencyReport.rate))
  return {
    distribution := group.1
    repetitions := group.2.length
    meanBytes, median, mean, mps }

def report (csv : CsvFile) : Except PyError (List Line) := do
  let groups ← groupRowsM (fun row => row.item (ascii "distribution")) csv.rows
  let sorted ← sortedBy (fun a b : ℚ => a ≤ b)
    (fun group => AsyncReports.median group.2 (ascii "ns_per_encode")) groups
  sorted.mapM line

end DistributionReport

namespace RepresentationReport

structure Line where
  representation : Option Bytes
  repetitions : ℕ
  bytes : Option Bytes
  median : ℚ
  mean : ℚ
  p95 : ℚ
  p99 : ℚ
  p99_9 : ℚ
  p99_99 : ℚ
  mps : ℚ
  deriving DecidableEq

def line (group : Option Bytes × List DictRow) : Except PyError Line := do
  let samples ← floats group.2 (ascii "ns_per_encode")
  let mean ← statistic (Means.mean samples)
  let percentile (fraction : ℚ) :=
    statistic (Percentiles.RepresentationReport.percentile samples fraction)
  let bytes ← lastItem group.2 (ascii "bytes")
  let median ← statistic (Medians.median samples)
  let p95 ← percentile (95 / 100)
  let p99 ← percentile (99 / 100)
  let p99_9 ← percentile (999 / 1000)
  let p99_99 ← percentile (9999 / 10000)
  let mps := (← divide 1000000000 mean) / 1000000
  return {
    representation := group.1
    repetitions := group.2.length
    bytes, median, mean, p95, p99, p99_9, p99_99, mps }

def report (csv : CsvFile) : Except PyError (List Line) := do
  let groups ← groupRowsM (fun row => row.item (ascii "representation")) csv.rows
  let sorted ← sortedBy (fun a b : ℚ => a ≤ b)
    (fun group => AsyncReports.median group.2 (ascii "ns_per_encode")) groups
  sorted.mapM line

end RepresentationReport

end ProtobufKafkaBench.EncodingReports

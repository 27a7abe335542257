import ProtobufKafkaBench.MergeKafkaResults
import ProtobufKafkaBench.Grouping

/-!
The Kafka producer report. Rows are grouped by configuration in order of first
appearance, each group must be a complete repetition set, and one line is
printed for each configuration. Quotients are taken in exact arithmetic.
-/
namespace ProtobufKafkaBench.KafkaReports

open ByteBuffers CsvTables Grouping

section Metadata

/-- Text mode turns every line ending into a newline. -/
def universalNewlines : Bytes → Bytes
  | [] => []
  | 13 :: 10 :: rest => 10 :: universalNewlines rest
  | 13 :: rest => 10 :: universalNewlines rest
  | b :: rest => b :: universalNewlines rest

def isLineBreak (b : UInt8) : Bool := (10 ≤ b ∧ b ≤ 13) ∨ (28 ≤ b ∧ b ≤ 30)

/-- `splitlines`, with the line read so far. -/
def splitLines (line : Bytes) : Bytes → List Bytes
  | [] => if line = [] then [] else [line]
  | b :: rest =>
    if isLineBreak b then line :: splitLines [] rest else splitLines (line ++ [b]) rest

/-- A line with an equals sign gives a key and, after the first one, its value. -/
def metadataEntry (line : Bytes) : Option (Bytes × Bytes) :=
  match cut (· = 61) line with
  | (key, some value) => some (key, value)
  | (_, none) => none

/-- The value of `name` in a metadata text; the last line that gives one counts. -/
def readMetadata (text : Bytes) (name : Bytes) : Option Bytes :=
  ((splitLines [] (universalNewlines text)).filterMap metadataEntry).reverse.lookup name

def intText (text : Bytes) : Except PyError ℤ :=
  match pyInt text with
  | none => .error .valueError
  | some n => .ok n

end Metadata

section Report

/-- The five configuration columns of a row; a missing value is `None`. -/
abbrev Key := List (Option Bytes)

def configNames : List Bytes :=
  ["mode", "acks", "compression", "linger_ms", "batch_num_messages"].map ascii

def rowKey (row : DictRow) : Except PyError Key := configNames.mapM row.item

/-- `"/".join(key)`. -/
def joinKey (key : Key) : Except PyError Bytes := do
  let parts ← key.mapM fun part => match part with
    | none => .error .typeError
    | some text => .ok text
  return intercalate (ascii "/") parts

/-- A line of the results table, with the rows it summarises and the values its
medians and percentiles are taken of. -/
structure ReportRow where
  key : Key
  values : List DictRow
  bytes : Bytes
  enqueue : List ℚ
  total : List ℚ
  errors : ℤ
  deriving Inhabited

structure Report where
  runs : Bytes
  iterations : ℤ
  repetitions : ℤ
  rows : List ReportRow

/-- `float(row[name]) / int(row["iterations"])`. -/
def perMessage (name : Bytes) (row : DictRow) : Except PyError ℚ := do
  let elapsed ← row.floatItem name
  let iterations ← row.intItem (ascii "iterations")
  if iterations = 0 then .error .zeroDivision else return elapsed / iterations

def reportRow (group : Key × List DictRow) : Except PyError ReportRow := do
  let enqueue ← group.2.mapM (perMessage (ascii "enqueue_elapsed_ns"))
  let total ← group.2.mapM (perMessage (ascii "end_to_end_ns"))
  let errors ← group.2.mapM fun row => row.intItem (ascii "delivery_errors")
  let bytes ← match group.2.getLast? with
    | none => .error .valueError
    | some row => row.item (ascii "bytes")
  return {
    key := group.1
    values := group.2
    bytes := bytes.getD (ascii "None")
    enqueue, total
    errors := errors.sum }

def groupLoop (rows : List DictRow) : Except PyError (List (Key × List DictRow)) :=
  rows.foldlM (fun groups row => do return addTo groups (← rowKey row) row) []

def validateGroup (iterations repetitions : ℤ) (group : Key × List DictRow) :
    Except PyError Unit := do
  validateRows (ascii "configuration=" ++ (← joinKey group.1)) group.2 iterations repetitions

/-- `sorted(groups.items())`; the keys are distinct, so they decide the order. -/
def sortGroups (groups : List (Key × List DictRow)) : List (Key × List DictRow) :=
  groups.mergeSort fun a b =>
    decide (a.1.map (fun part => part.getD []) ≤ b.1.map fun part => part.getD [])

/-- `main` on the files that the pattern selects, in path order. -/
def kafkaReport (files : List CsvFile) (metadata : Bytes) : Except PyError Report :=
  let rows := files.flatMap CsvFile.rows
  if rows.isEmpty then .error (.systemExit (ascii "no Kafka producer CSV files found"))
  else do
    let groups ← groupLoop rows
    let value := readMetadata metadata
    let iterations ← intText ((value (ascii "iterations")).getD (ascii "1000000"))
    let repetitions ← intText ((value (ascii "repetitions")).getD (ascii "10"))
    groups.forM (validateGroup iterations repetitions)
    let rows ← (sortGroups groups).mapM reportRow
    return { runs := (value (ascii "runs")).getD (ascii "?"), iterations, repetitions, rows }

/-- The workflow step: merge the shards, then report on the merged table. -/
def mergeAndReport (root : Bytes) (files : List ShardFile) (before : Outputs) :
    Except PyError Report :=
  match mergeFiles root files before with
  | (.error error, _) => .error error
  | (.ok (), outputs) =>
    match outputs.csvFile with
    | none => .error .csvError
    | some table => kafkaReport [table] outputs.metadata

end Report

end ProtobufKafkaBench.KafkaReports

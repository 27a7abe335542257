import ProtobufKafkaBench.CsvWriters

/-!
Merging the Kafka producer shards of a results tree. Each file must hold the
expected repetitions in order; the merged table is all rows of all files in path
order, and the metadata counts files as runs. Outputs are written only after
every file has been checked.
-/
namespace ProtobufKafkaBench.KafkaReports

open ByteBuffers CsvTables CsvWriters

def EXPECTED_ITERATIONS : ℤ := 1000000
def EXPECTED_REPETITIONS : ℤ := 10

section Texts

def intercalate (separator : Bytes) (parts : List Bytes) : Bytes := separator.intercalate parts

/-- The rendering of a list of integers. -/
def reprInts (values : List ℤ) : Bytes :=
  ascii "[" ++ intercalate (ascii ", ") (values.map decimalText) ++ ascii "]"

end Texts

section Validation

/-- The check of one row: its iterations, then its repetition number. -/
def repetitionOf (path : Bytes) (expectedIterations : ℤ) (row : DictRow) :
    Except PyError ℤ := do
  if (← row.intItem (ascii "iterations")) ≠ expectedIterations then
    .error (.systemExit (path ++ ascii ": expected " ++ decimalText expectedIterations ++
      ascii " iterations, found " ++ (← row.item (ascii "iterations")).getD (ascii "None")))
  else row.intItem (ascii "repetition")

/-- `validate_rows`; the merge makes the same checks file by file. -/
def validateRows (path : Bytes) (rows : List DictRow) (expectedIterations : ℤ)
    (expectedRepetitions : ℤ) : Except PyError Unit :=
  if (rows.length : ℤ) ≠ expectedRepetitions then
    .error (.systemExit (path ++ ascii ": expected " ++ decimalText expectedRepetitions ++
      ascii " rows, found " ++ decimalDigits rows.length))
  else do
    let repetitions ← rows.mapM (repetitionOf path expectedIterations)
    if repetitions ≠ (List.range' 1 expectedRepetitions.toNat).map Int.ofNat then
      .error (.systemExit (path ++ ascii ": expected repetitions 1.." ++
        decimalText expectedRepetitions ++ ascii ", found " ++ reprInts repetitions))
    else .ok ()

end Validation

section Files

/-- The path of a file as its components, those of the root first. -/
abbrev Path := List Bytes

def Path.name (path : Path) : Bytes := path.getLastD []

def Path.parent (path : Path) : Path := path.dropLast

def Path.text (path : Path) : Bytes := intercalate (ascii "/") path

/-- The name pattern `kafka_producer_*.csv`. -/
def isShardName (name : Bytes) : Bool :=
  (ascii "kafka_producer_").isPrefixOf name &&
    (ascii ".csv").isSuffixOf (name.drop (ascii "kafka_producer_").length)

structure ShardFile where
  path : Path
  csv : CsvFile

/-- `sorted(root.rglob("kafka_producer_*.csv"))` over the files of the tree. -/
def shardFiles (tree : List ShardFile) : List ShardFile :=
  (tree.filter fun file => isShardName file.path.name).mergeSort
    fun a b => decide (a.path ≤ b.path)

/-- The loop body for one file: header, row count and the checks of the rows. -/
def collectFile (fieldnames : Option (List Bytes)) (file : ShardFile) :
    Except PyError (List Bytes) := do
  match fieldnames with
  | some names =>
    if file.csv.header ≠ names then
      .error (.systemExit (ascii "CSV header mismatch in " ++ file.path.text))
  | none => pure ()
  validateRows file.path.text file.csv.rows EXPECTED_ITERATIONS EXPECTED_REPETITIONS
  return fieldnames.getD file.csv.header

/-- The loop over the files, with the rows taken so far. -/
def collect : Option (List Bytes) → List DictRow → List ShardFile →
    Except PyError (Option (List Bytes) × List DictRow)
  | fieldnames, rows, [] => .ok (fieldnames, rows)
  | fieldnames, rows, file :: rest => do
    let names ← collectFile fieldnames file
    collect (some names) (rows ++ file.csv.rows) rest

/-- What the two output files hold. -/
structure Outputs where
  csv : Bytes
  metadata : Bytes

/-- The table as the next script reads it. -/
def Outputs.csvFile (outputs : Outputs) : Option CsvFile := CsvReaders.readTable outputs.csv

def metadataText (entries : List (Bytes × Bytes)) : Bytes :=
  entries.flatMap fun entry => entry.1 ++ ascii "=" ++ entry.2 ++ ascii "\n"

def metadata (files : List ShardFile) : List (Bytes × Bytes) := [
  (ascii "runs", decimalDigits files.length),
  (ascii "iterations", ascii "1000000"),
  (ascii "repetitions", ascii "10"),
  (ascii "shards", decimalDigits (files.map fun file => file.path.parent).dedup.length),
  (ascii "encoding_plus_kafka_produce", ascii "true"),
  (ascii "decode_benchmark", ascii "false")]

/-- The rest of `main` once the files are known: opening the table for writing
empties it, and the metadata is written last. -/
def mergeFiles (root : Bytes) (files : List ShardFile) (before : Outputs) :
    Except PyError Unit × Outputs :=
  if files = [] then
    (.error (.systemExit (ascii "no Kafka producer CSV files found under " ++ root)), before)
  else
    match collect none [] files with
    | .error error => (.error error, before)
    | .ok (fieldnames, rows) =>
      let header := fieldnames.getD []
      let written := writeRows header rows
      let after := { before with csv := tableText (header :: written.1) }
      match written.2 with
      | .error error => (.error error, after)
      | .ok () => (.ok (), { after with metadata := metadataText (metadata files) })

def mergeKafkaResults (root : Bytes) (tree : List ShardFile) (before : Outputs) :
    Except PyError Unit × Outputs :=
  mergeFiles root (shardFiles tree) before

end Files

end ProtobufKafkaBench.KafkaReports

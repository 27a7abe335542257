import ProtobufKafkaBench.AsyncOutcomes
import ProtobufKafkaBench.KafkaReport
import ProtobufKafkaBench.Medians
import Mathlib.Data.Rat.Floor

/-!
The two reports on the asynchronous pipeline. Every cell is a median over the
repetitions of one mode and test case, and the counts are cut to integers.
Arithmetic is exact, as it is for floats that hold counts of this size.
-/
namespace ProtobufKafkaBench.AsyncReports

open Exceptions ByteBuffers CsvTables Grouping KafkaReports

section Tables

structure GroupKey where
  mode : Option Bytes
  testCase : Option Bytes
  deriving DecidableEq

abbrev Group := GroupKey × List DictRow

/-- `(row["mode"], row["test_case"])`. -/
def groupKey (row : DictRow) : Except PyError GroupKey := do
  let mode ← row.item (ascii "mode")
  let testCase ← row.item (ascii "test_case")
  return { mode, testCase }

def grouped (rows : List DictRow) : Except PyError (List Group) := groupRowsM groupKey rows

/-- `statistics.median` of a column; it refuses an empty one. -/
def median (rows : List DictRow) (field : Bytes) : Except PyError ℚ := do
  let values ← rows.mapM fun row => row.floatItem field
  match Medians.median values with
  | none => .error .valueError
  | some value => return value

/-- `int` of a float drops what is after the point. -/
def truncate (value : ℚ) : ℤ := value.num.tdiv value.den

theorem truncate_div (n d : ℕ) : truncate ((n : ℚ) / d) = (n / d : ℕ) := by
  have hnonneg : (0 : ℚ) ≤ (n : ℚ) / d := by positivity
  have hfloor : truncate ((n : ℚ) / d) = ⌊(n : ℚ) / d⌋ := by
    rw [truncate, Int.tdiv_eq_ediv_of_nonneg (Rat.num_nonneg.mpr hnonneg), Rat.floor_def']
  rw [hfloor, Rat.floor_natCast_div_natCast n d]
  rfl

/-- Texts are ordered, and `None` is only equal to itself. -/
def ordered (a b : Option Bytes) : Bool := a = b || (a.isSome && b.isSome)

end Tables

section PipelineReport

/-- A line of the results table. -/
structure ResultLine where
  key : GroupKey
  completed : ℤ
  dropped : ℤ
  payloadBytes : Option Bytes
  hotP50 : ℚ
  hotP99 : ℚ
  workerP50 : ℚ
  workerP99 : ℚ
  workerMps : ℚ
  deriving DecidableEq

structure Report where
  iterations : Bytes
  repetitions : Bytes
  warmupIterations : Bytes
  queueCapacity : Bytes
  handoffModel : Bytes
  results : List ResultLine
  deriving DecidableEq

/-- Tuples are compared at the first place where they differ. -/
def comparable (a b : GroupKey) : Bool :=
  if a.mode = b.mode then ordered a.testCase b.testCase else ordered a.mode b.mode

/-- `sorted(groups.items())`. The keys are distinct, and no order of them can be found
without comparing a key that has a `None` with one that has a text in its place. -/
def sortedItems (groups : List Group) : Except PyError (List Group) :=
  if groups.all fun a => groups.all fun b => comparable a.1 b.1 then
    return groups.insertionSort fun a b =>
      a.1.mode.getD [] < b.1.mode.getD [] ∨
        a.1.mode = b.1.mode ∧ a.1.testCase.getD [] ≤ b.1.testCase.getD []
  else .error .typeError

/-- `group[0]['payload_bytes']`. -/
def payloadBytesOf (rows : List DictRow) : Except PyError (Option Bytes) :=
  match rows.head? with
  | none => .error .valueError
  | some row => row.item (ascii "payload_bytes")

def resultLine (group : Group) : Except PyError ResultLine := do
  let completed := truncate (← median group.2 (ascii "completed"))
  let dropped := truncate (← median group.2 (ascii "dropped"))
  let workerWall ← median group.2 (ascii "worker_wall_ns")
  let workerMps := if workerWall = 0 then 0 else completed / workerWall * 1000
  let payloadBytes ← payloadBytesOf group.2
  let hotP50 ← median group.2 (ascii "hot_p50_ns")
  let hotP99 ← median group.2 (ascii "hot_p99_ns")
  let workerP50 ← median group.2 (ascii "worker_p50_ns")
  let workerP99 ← median group.2 (ascii "worker_p99_ns")
  return {
    key := group.1
    completed, dropped, payloadBytes, hotP50, hotP99, workerP50, workerP99, workerMps }

/-- `main` of the pipeline report. -/
def asyncPipelineReport (csv : CsvFile) (metadata : Bytes) : Except PyError Report := do
  let groups ← grouped csv.rows
  let value (name : String) := (readMetadata metadata (ascii name)).getD (ascii "?")
  let results ← (← sortedItems groups).mapM resultLine
  return {
    iterations := value "iterations"
    repetitions := value "repetitions"
    warmupIterations := value "warmup_iterations"
    queueCapacity := value "queue_capacity"
    handoffModel := value "handoff_model"
    results }

end PipelineReport

section PipelineMatrix

/-- A line of the comparison of the two architectures. -/
structure MatrixLine where
  key : GroupKey
  armHot : ℚ × ℚ
  amdHot : ℚ × ℚ
  armWorker : ℚ × ℚ
  amdWorker : ℚ × ℚ
  armMps : ℚ
  amdMps : ℚ
  armDrops : ℤ
  amdDrops : ℤ
  deriving DecidableEq

def payloads : List Bytes :=
  ["one_string_ten_int64", "one_string_ten_decimal_strings",
    "ten_strings_fifty_decimal_strings"].map ascii

/-- `PAYLOADS.index(item[1])`. -/
def payloadIndex (testCase : Option Bytes) : Except PyError ℕ :=
  match (payloads.map some).idxOf? testCase with
  | none => .error .valueError
  | some index => return index

/-- `sorted(arm, key=...)`: the sort keys are computed first, then compared. -/
def matrixKeys (groups : List Group) : Except PyError (List GroupKey) := do
  let keys ← groups.mapM fun group => do return (group.1, ← payloadIndex group.1.testCase)
  if keys.all fun a => keys.all fun b => ordered a.1.mode b.1.mode then
    return (keys.insertionSort fun a b =>
      a.1.mode.getD [] < b.1.mode.getD [] ∨ a.1.mode = b.1.mode ∧ a.2 ≤ b.2).map Prod.fst
  else .error .typeError

def percentiles (rows : List DictRow) (p50 p99 : Bytes) : Except PyError (ℚ × ℚ) := do
  let low ← median rows p50
  let high ← median rows p99
  return (low, high)

def workerMps (rows : List DictRow) : Except PyError ℚ := do
  let completed ← median rows (ascii "completed")
  let workerWall ← median rows (ascii "worker_wall_ns")
  if workerWall = 0 then .error .zeroDivision else return completed / workerWall * 1000

/-- A key that the other architecture lacks has an empty group there. -/
def matrixLine (arm amd : List Group) (key : GroupKey) : Except PyError MatrixLine := do
  let armRows := (arm.lookup key).getD []
  let amdRows := (amd.lookup key).getD []
  let armHot ← percentiles armRows (ascii "hot_p50_ns") (ascii "hot_p99_ns")
  let amdHot ← percentiles amdRows (ascii "hot_p50_ns") (ascii "hot_p99_ns")
  let armWorker ← percentiles armRows (ascii "worker_p50_ns") (ascii "worker_p99_ns")
  let amdWorker ← percentiles amdRows (ascii "worker_p50_ns") (ascii "worker_p99_ns")
  let armMps ← workerMps armRows
  let amdMps ← workerMps amdRows
  let armDrops := truncate (← median armRows (ascii "dropped"))
  let amdDrops := truncate (← median amdRows (ascii "dropped"))
  return { key, armHot, amdHot, armWorker, amdWorker, armMps, amdMps, armDrops, amdDrops }

/-- `async_pipeline_matrix`, which is `none` while one of the files is missing. -/
def asyncPipelineMatrix (arm amd : Option CsvFile) : Except PyError (Option (List MatrixLine)) :=
  match arm, amd with
  | some arm, some amd => do
    let arm ← grouped arm.rows
    let amd ← grouped amd.rows
    return some (← (← matrixKeys arm).mapM (matrixLine arm amd))
  | _, _ => return none

end PipelineMatrix

end ProtobufKafkaBench.AsyncReports

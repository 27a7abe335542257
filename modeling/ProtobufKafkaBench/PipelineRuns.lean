import ProtobufKafkaBench.Means
import ProtobufKafkaBench.MergeAndReport
import ProtobufKafkaBench.Percentiles
import ProtobufKafkaBench.PipelineRows

/-!
The report on the tables of whole runs of the pipeline benchmark. It has one line for each mode and
event, with the medians of that mode's own repetitions. No line shows a drop, whatever the threads
have done, so that events which the worker left behind show in the completed count or not at all.
-/
namespace ProtobufKafkaBench.AsyncReports

open AsyncPipeline ByteBuffers CsvReaders CsvTables Exceptions Grouping KafkaReports Medians
open NearestRanks Percentiles

section Tables

def header : List Bytes :=
  ["mode", "test_case", "repetition", "iterations", "completed", "dropped", "payload_bytes",
    "hot_elapsed_ns", "worker_wall_ns", "hot_mean_ns", "hot_p50_ns", "hot_p99_ns",
    "worker_mean_ns", "worker_p50_ns", "worker_p99_ns", "checksum"].map ascii

def headerText : Bytes :=
  ascii "mode,test_case,repetition,iterations,completed,dropped,payload_bytes,hot_elapsed_ns," ++
    ascii "worker_wall_ns,hot_mean_ns,hot_p50_ns,hot_p99_ns,worker_mean_ns,worker_p50_ns," ++
    ascii "worker_p99_ns,checksum\n"

/-- What the standard library does for a row: `std::nth_element`, and a mean with three places. -/
structure RowPrinter where
  select : NthElement ℕ
  mean : List (BitVec 64) → Bytes
  plain : ∀ samples, PlainField (mean samples)

namespace RowPrinter

variable (printer : RowPrinter)

def percentile (samples : List (BitVec 64)) (fraction : ℚ) : ℕ :=
  AsyncPipeline.percentile printer.select (samples.map BitVec.toNat) fraction

def hotP50 (row : Row) : ℕ := printer.percentile row.result.hotSamples (50 / 100)
def hotP99 (row : Row) : ℕ := printer.percentile row.result.hotSamples (99 / 100)
def workerP50 (row : Row) : ℕ := printer.percentile row.result.workerSamples (50 / 100)
def workerP99 (row : Row) : ℕ := printer.percentile row.result.workerSamples (99 / 100)

/-- The line that `run_case` writes. -/
def rowText (row : Row) : Bytes :=
  row.mode ++ ascii "," ++ row.testCase.name ++ ascii "," ++
    decimalDigits row.repetition.toNat ++ ascii "," ++ decimalDigits row.iterations.toNat ++
    ascii "," ++ decimalDigits row.result.completed.toNat ++ ascii "," ++
    decimalDigits row.result.dropped.toNat ++ ascii "," ++ decimalDigits row.payloadBytes ++
    ascii "," ++ decimalDigits row.result.hotElapsedNs.toNat ++ ascii "," ++
    decimalDigits row.result.workerWallNs.toNat ++ ascii "," ++
    printer.mean row.result.hotSamples ++ ascii "," ++ decimalDigits (printer.hotP50 row) ++
    ascii "," ++ decimalDigits (printer.hotP99 row) ++ ascii "," ++
    printer.mean row.result.workerSamples ++ ascii "," ++
    decimalDigits (printer.workerP50 row) ++ ascii "," ++
    decimalDigits (printer.workerP99 row) ++ ascii "," ++
    decimalDigits row.result.checksum.toNat ++ ascii "\n"

def record (row : Row) : List Bytes :=
  [row.mode, row.testCase.name, decimalDigits row.repetition.toNat,
    decimalDigits row.iterations.toNat, decimalDigits row.result.completed.toNat,
    decimalDigits row.result.dropped.toNat, decimalDigits row.payloadBytes,
    decimalDigits row.result.hotElapsedNs.toNat, decimalDigits row.result.workerWallNs.toNat,
    printer.mean row.result.hotSamples, decimalDigits (printer.hotP50 row),
    decimalDigits (printer.hotP99 row), printer.mean row.result.workerSamples,
    decimalDigits (printer.workerP50 row), decimalDigits (printer.workerP99 row),
    decimalDigits row.result.checksum.toNat]

def csvText (rows : List Row) : Bytes := headerText ++ rows.flatMap printer.rowText

theorem rowText_eq (row : Row) : printer.rowText row = recordText (printer.record row) := by
  have hcomma : ascii "," = [44] := rfl
  have hnewline : ascii "\n" = [10] := rfl
  unfold rowText recordText record
  simp only [hcomma, hnewline, List.cons_append, List.nil_append, List.intercalate_cons_cons,
    List.intercalate_singleton, List.append_assoc]

theorem csvText_eq (rows : List Row) :
    printer.csvText rows = (header :: rows.map printer.record).flatMap recordText := by
  have hheader : headerText = recordText header := by decide +kernel
  rw [csvText, hheader, List.flatMap_cons, List.flatMap_map]
  exact congrArg (recordText header ++ rows.flatMap ·) (funext printer.rowText_eq)

theorem header_plain : PlainRecord header :=
  plainRecord_of_all (by decide) (by decide +kernel)

theorem testCase_plain (testCase : TestCase) : PlainField testCase.name := by
  cases testCase <;> exact plainField_of_all (by decide +kernel)

theorem record_plain {row : Row} (hmode : PlainField row.mode) :
    PlainRecord (printer.record row) := by
  have hcount := plainField_decimalDigits
  refine ⟨List.cons_ne_nil _ _, by simp [record], ?_⟩
  simp only [record, List.forall_mem_cons]
  exact ⟨hmode, testCase_plain _, hcount _, hcount _, hcount _, hcount _, hcount _, hcount _,
    hcount _, printer.plain _, hcount _, hcount _, printer.plain _, hcount _, hcount _, hcount _,
    fun _ h => absurd h List.not_mem_nil⟩

end RowPrinter

end Tables

section Modes

variable {name : Bytes} {mode : Mode} {config : Config}

def modeTexts : List Bytes :=
  ["sync_both", "async_handoff", "async_protobuf", "async_pipe", "async_both"].map ascii

theorem mem_modeTexts (h : parseMode name = .ok mode) : name ∈ modeTexts := by
  by_contra hmem
  simp only [modeTexts, List.map_cons, List.map_nil, List.mem_cons, not_or] at hmem
  obtain ⟨hsync, hhandoff, hproto, hpipe, hboth, -⟩ := hmem
  rw [parseMode, if_neg hsync, if_neg hhandoff, if_neg hproto, if_neg hpipe, if_neg hboth] at h
  cases h

theorem name_of_sync (h : parseMode name = .ok .syncBoth) : name = ascii "sync_both" := by
  have hmem := mem_modeTexts h
  simp only [modeTexts, List.map_cons, List.map_nil, List.mem_cons, List.not_mem_nil,
    or_false] at hmem
  rcases hmem with rfl | rfl | rfl | rfl | rfl
  · rfl
  all_goals cases h

/-- The names of the modes need no quotes, and no line ends in them. -/
theorem modeTexts_plain (h : name ∈ modeTexts) :
    PlainField name ∧ ∀ b ∈ name, isLineBreak b = false := by
  have hplain : (modeTexts.all fun name =>
      name.all fun b => b ≠ 44 ∧ b ≠ 34 ∧ b ≠ 10 ∧ b ≠ 13) = true := by decide +kernel
  have hlines : (modeTexts.all fun name => name.all fun b => !isLineBreak b) = true := by
    decide +kernel
  exact ⟨plainField_of_all (List.all_eq_true.mp hplain name h),
    no_line_break (List.all_eq_true.mp hlines name h)⟩

/-- Nor in the list of them. -/
theorem modes_on_one_line
    (h : ∀ modeName ∈ config.modeNames, ∃ mode, parseMode modeName = .ok mode) :
    ∀ b ∈ config.modes, isLineBreak b = false := by
  intro b hb
  have hjoined : [44].intercalate config.modeNames = config.modes := List.intercalate_splitOn 44
  rw [← hjoined] at hb
  rcases mem_intercalate hb with rfl | ⟨name, hname, hb⟩
  · decide
  · obtain ⟨mode, hmode⟩ := h name hname
    exact (modeTexts_plain (mem_modeTexts hmode)).2 b hb

/-- What `main` writes next to the table. -/
def metadataOf (config : Config) : Bytes :=
  ascii "iterations=" ++ decimalDigits config.iterations.toNat ++ ascii "\n" ++
    ascii "repetitions=" ++ decimalDigits config.repetitions.toNat ++ ascii "\n" ++
    ascii "warmup_iterations=" ++ decimalDigits config.warmupIterations.toNat ++ ascii "\n" ++
    ascii "queue_capacity=" ++ decimalDigits kQueueCapacity ++ ascii "\n" ++
    ascii "handoff_model=preallocated_immutable_event_pool_pointer\n" ++
    ascii "modes=" ++ config.modes ++ ascii "\n"

/-- The counts come back from it, whatever the list of modes is. -/
theorem readMetadata_of
    (h : ∀ modeName ∈ config.modeNames, ∃ mode, parseMode modeName = .ok mode) :
    readMetadata (metadataOf config) (ascii "iterations") =
        some (decimalDigits config.iterations.toNat) ∧
      readMetadata (metadataOf config) (ascii "repetitions") =
        some (decimalDigits config.repetitions.toNat) ∧
      readMetadata (metadataOf config) (ascii "warmup_iterations") =
        some (decimalDigits config.warmupIterations.toNat) ∧
      readMetadata (metadataOf config) (ascii "queue_capacity") =
        some (decimalDigits kQueueCapacity) ∧
      readMetadata (metadataOf config) (ascii "handoff_model") =
        some (ascii "preallocated_immutable_event_pool_pointer") := by
  let entries : List (Bytes × Bytes) :=
    [(ascii "iterations", decimalDigits config.iterations.toNat),
      (ascii "repetitions", decimalDigits config.repetitions.toNat),
      (ascii "warmup_iterations", decimalDigits config.warmupIterations.toNat),
      (ascii "queue_capacity", decimalDigits kQueueCapacity),
      (ascii "handoff_model", ascii "preallocated_immutable_event_pool_pointer"),
      (ascii "modes", config.modes)]
  have htext : metadataOf config = metadataText entries := by
    simp [metadataOf, metadataText, entries, ascii]
  have hcount : ∀ key n, 61 ∉ key → (key.all fun b => !isLineBreak b) = true →
      Clean (key, decimalDigits n) := fun key n hkey hline =>
    clean_decimalDigits hkey (no_line_break hline) n
  have hmodes : Clean (ascii "modes", config.modes) := by
    have hequals : 61 ∉ ascii "modes" := by decide
    refine ⟨hequals, fun b hb => ?_⟩
    rcases List.mem_append.mp hb with hname | hvalue
    · exact no_line_break (show ((ascii "modes").all fun b => !isLineBreak b) = true by decide) b
        hname
    · exact modes_on_one_line h b hvalue
  have hclean : ∀ entry ∈ entries, Clean entry := by
    simp only [entries, List.forall_mem_cons]
    exact ⟨hcount _ _ (by decide) (by decide), hcount _ _ (by decide) (by decide),
      hcount _ _ (by decide) (by decide), hcount _ _ (by decide) (by decide),
      ⟨by decide, no_line_break (by decide)⟩, hmodes, fun _ h => absurd h List.not_mem_nil⟩
  rw [htext]
  simp only [readMetadata_metadataText hclean]
  exact ⟨rfl, rfl, rfl, rfl, rfl⟩

end Modes

section Runs

/-- A benchmark that has come to its end. -/
structure PipelineRun where
  args : List Bytes
  config : Config
  parsed : parseArgs args = .ok config
  outcomes : Outcomes config
  printer : RowPrinter
  fuel : ℕ
  final : MainState
  returned : runMain outcomes fuel = some (some final, .ok ())

def lineKey (label : Bytes × TestCase) : GroupKey where
  mode := some label.1
  testCase := some label.2.name

/-- The key of a row in the report, and what it is made of. -/
def rowLabel (row : Row) : Bytes × TestCase := (row.mode, row.testCase)

theorem lineKey_injective : Function.Injective lineKey := by
  intro first second h
  injection h with hmode htestCase
  exact Prod.ext (Option.some.inj hmode) (TestCase.name_injective (Option.some.inj htestCase))

namespace PipelineRun

variable (run : PipelineRun)

/-- The rows of a mode and event. -/
def rowsOf (label : Bytes × TestCase) : List Row := withKey rowLabel run.final.rows label

/-- What the lines are about, each once. -/
def labels : List (Bytes × TestCase) :=
  run.config.modeNames.dedup.flatMap fun modeName =>
    TestCase.all.map fun testCase => (modeName, testCase)

theorem mem_labels {label : Bytes × TestCase} :
    label ∈ run.labels ↔ label.1 ∈ run.config.modeNames := by
  simp only [labels, List.mem_flatMap, List.mem_dedup, List.mem_map]
  constructor
  · rintro ⟨modeName, hname, testCase, -, rfl⟩
    exact hname
  · intro h
    exact ⟨label.1, h, label.2, label.2.mem_all, rfl⟩

theorem labels_nodup : run.labels.Nodup := by
  refine List.nodup_flatMap.mpr ⟨fun modeName _ => ?_, ?_⟩
  · exact (show TestCase.all.Nodup by decide).map fun _ _ h => congrArg Prod.snd h
  · refine (List.nodup_dedup run.config.modeNames).imp fun {first second} hne => ?_
    intro label hfirst hsecond
    obtain ⟨testCase, -, rfl⟩ := List.mem_map.mp hfirst
    obtain ⟨other, -, hother⟩ := List.mem_map.mp hsecond
    exact hne (congrArg Prod.fst hother).symm

theorem mode_valid {modeName : Bytes} (h : modeName ∈ run.config.modeNames) :
    ∃ mode, parseMode modeName = .ok mode := (runMain_rows run.returned).1 modeName h

/-- The labels of a mode and event, where the mode is in the list or not. -/
theorem filter_modeLabels (config : Config) (label : Bytes × TestCase) (modeName : Bytes) :
    ((modeLabels config modeName).filter fun entry => (entry.1, entry.2.2) = label) =
      if modeName = label.1 then
        (List.range' 1 config.repetitions.toNat).map fun n => (modeName, n, label.2)
      else [] := by
  unfold modeLabels
  rw [List.filter_flatMap]
  split
  case isTrue hname =>
    subst hname
    rw [List.map_eq_flatMap]
    refine List.flatMap_congr fun n _ => ?_
    obtain ⟨modeName, testCase⟩ := label
    cases testCase <;> simp [TestCase.all]
  case isFalse hname =>
    refine List.flatMap_eq_nil_iff.mpr fun n _ =>
      List.filter_eq_nil_iff.mpr fun entry hentry => ?_
    obtain ⟨testCase, -, rfl⟩ := List.mem_map.mp hentry
    rw [decide_eq_true_eq]
    exact fun heq => hname (congrArg Prod.fst heq)

/-- A mode that stands in the list twice has its labels twice. -/
theorem filter_labels (config : Config) (label : Bytes × TestCase) (names : List Bytes) :
    ((names.flatMap (modeLabels config)).filter fun entry => (entry.1, entry.2.2) = label) =
      (names.filter (· = label.1)).flatMap fun modeName =>
        (List.range' 1 config.repetitions.toNat).map fun n => (modeName, n, label.2) := by
  induction names with
  | nil => rfl
  | cons modeName names ih =>
    rw [List.flatMap_cons, List.filter_append, ih, filter_modeLabels, List.filter_cons]
    by_cases hname : modeName = label.1
    · rw [if_pos hname, if_pos (decide_eq_true hname), List.flatMap_cons]
    · rw [if_neg hname, if_neg (by simpa using hname), List.nil_append]

/-- The repetitions of a mode are numbered from one, as often as it stands in the list. -/
theorem rowsOf_repetitions (label : Bytes × TestCase) :
    (run.rowsOf label).map (fun row => row.repetition.toNat) =
      (run.config.modeNames.filter (· = label.1)).flatMap fun _ =>
        List.range' 1 run.config.repetitions.toNat := by
  have hkept : (run.rowsOf label).map Row.label =
      (run.final.rows.map Row.label).filter fun entry => (entry.1, entry.2.2) = label := by
    rw [List.filter_map]
    rfl
  have hlabels := congrArg (List.map fun entry => entry.2.1) hkept
  rw [(runMain_rows run.returned).2.1, filter_labels, List.map_map, List.map_flatMap] at hlabels
  refine hlabels.trans (List.flatMap_congr fun modeName _ => ?_)
  rw [List.map_map]
  exact List.map_id _

theorem rowsOf_ne_nil {label : Bytes × TestCase} (h : label ∈ run.labels) :
    run.rowsOf label ≠ [] := by
  have hname := run.mem_labels.mp h
  have hnumbers := run.rowsOf_repetitions label
  have hten := (parseArgs_ok run.parsed).2.1
  intro hnil
  rw [hnil, List.map_nil] at hnumbers
  have hempty := List.flatMap_eq_nil_iff.mp hnumbers.symm label.1
    (List.mem_filter.mpr ⟨hname, decide_eq_true rfl⟩)
  have hlength := congrArg List.length hempty
  rw [List.length_range', List.length_nil] at hlength
  omega

theorem mem_rowsOf {label : Bytes × TestCase} {row : Row} (h : row ∈ run.rowsOf label) :
    row.mode = label.1 ∧ row.testCase = label.2 ∧ Tells run.outcomes row := by
  obtain ⟨hrow, hlabel⟩ := List.mem_filter.mp h
  have hlabel := of_decide_eq_true hlabel
  exact ⟨congrArg Prod.fst hlabel, congrArg Prod.snd hlabel,
    (runMain_rows run.returned).2.2 row hrow⟩

/-- A row is about a mode of the list. -/
theorem row_mode {row : Row} (h : row ∈ run.final.rows) : row.mode ∈ run.config.modeNames := by
  have hlabel : row.label ∈ run.final.rows.map Row.label := List.mem_map_of_mem h
  rw [(runMain_rows run.returned).2.1] at hlabel
  obtain ⟨modeName, hname, hlabel⟩ := List.mem_flatMap.mp hlabel
  obtain ⟨repetition, -, hlabel⟩ := List.mem_flatMap.mp hlabel
  obtain ⟨testCase, -, hlabel⟩ := List.mem_map.mp hlabel
  have hmode : modeName = row.mode := congrArg Prod.fst hlabel
  rwa [← hmode]

end PipelineRun

end Runs

section Reading

variable {printer : RowPrinter} {rows : List Row} {field : Bytes} {value : Row → ℕ}

def readRow (printer : RowPrinter) (row : Row) : DictRow := dictRow header (printer.record row)

theorem groupKey_readRow (row : Row) :
    groupKey (readRow printer row) = .ok (lineKey (rowLabel row)) := rfl

/-- The cells that the report reads. -/
theorem readRow_items (printer : RowPrinter) (row : Row) :
    (readRow printer row).item (ascii "completed") =
        .ok (some (decimalDigits row.result.completed.toNat)) ∧
      (readRow printer row).item (ascii "dropped") =
        .ok (some (decimalDigits row.result.dropped.toNat)) ∧
      (readRow printer row).item (ascii "payload_bytes") =
        .ok (some (decimalDigits row.payloadBytes)) ∧
      (readRow printer row).item (ascii "worker_wall_ns") =
        .ok (some (decimalDigits row.result.workerWallNs.toNat)) ∧
      (readRow printer row).item (ascii "hot_p50_ns") =
        .ok (some (decimalDigits (printer.hotP50 row))) ∧
      (readRow printer row).item (ascii "hot_p99_ns") =
        .ok (some (decimalDigits (printer.hotP99 row))) ∧
      (readRow printer row).item (ascii "worker_p50_ns") =
        .ok (some (decimalDigits (printer.workerP50 row))) ∧
      (readRow printer row).item (ascii "worker_p99_ns") =
        .ok (some (decimalDigits (printer.workerP99 row))) :=
  ⟨rfl, rfl, rfl, rfl, rfl, rfl, rfl, rfl⟩

/-- The median of counts, as a number. -/
def medianOf (rows : List Row) (value : Row → ℕ) : ℚ :=
  (lowerMiddle (rows.map value) + upperMiddle (rows.map value) : ℕ) / 2

theorem truncate_medianOf : truncate (medianOf rows value) = middleCount (rows.map value) :=
  truncate_half _

/-- A column of counts has a median. -/
theorem median_readRow (hne : rows ≠ [])
    (h : ∀ row, (readRow printer row).item field = .ok (some (decimalDigits (value row)))) :
    median (rows.map (readRow printer)) field = .ok (medianOf rows value) := by
  have hfloat : ∀ row ∈ rows, (readRow printer row).floatItem field = .ok (value row : ℚ) :=
    fun row _ => floatItem_of_item (h row) (pyFloat_decimalDigits _)
  have hvalues : (rows.map (readRow printer)).mapM (fun row => row.floatItem field) =
      .ok ((rows.map value).map (Nat.cast : ℕ → ℚ)) := by
    rw [List.mapM_map, List.map_map]
    exact mapM_ok hfloat
  have hcounts : rows.map value ≠ [] := List.map_eq_nil_iff.not.mpr hne
  refine bind_eq_ok.mpr ⟨_, hvalues, ?_⟩
  rw [median_cast hcounts]
  rfl

end Reading

section Lines

namespace PipelineRun

variable (run : PipelineRun)

/-- The line of a mode and event. -/
def line (label : Bytes × TestCase) : ResultLine where
  key := lineKey label
  completed := middleCount ((run.rowsOf label).map fun row => row.result.completed.toNat)
  dropped := 0
  payloadBytes := some (decimalDigits (label.2.payloadSize + 6))
  hotP50 := medianOf (run.rowsOf label) run.printer.hotP50
  hotP99 := medianOf (run.rowsOf label) run.printer.hotP99
  workerP50 := medianOf (run.rowsOf label) run.printer.workerP50
  workerP99 := medianOf (run.rowsOf label) run.printer.workerP99
  workerMps :=
    let wall := medianOf (run.rowsOf label) fun row => row.result.workerWallNs.toNat
    if wall = 0 then 0
    else middleCount ((run.rowsOf label).map fun row => row.result.completed.toNat) / wall * 1000

theorem row_result {label : Bytes × TestCase} {mode : Mode} (hmode : parseMode label.1 = .ok mode)
    {row : Row} (h : row ∈ run.rowsOf label) :
    ∃ call, row.result = run.outcomes.result call mode label.2 := by
  obtain ⟨hlabel, htestCase, htells⟩ := run.mem_rowsOf h
  obtain ⟨call, other, hother, hresult⟩ := htells.called
  rw [hlabel] at hother
  obtain rfl := Except.ok.inj (hmode.symm.trans hother)
  rw [htestCase] at hresult
  exact ⟨call, hresult⟩

theorem counted {label : Bytes × TestCase} {mode : Mode} (hmode : parseMode label.1 = .ok mode)
    {row : Row} (h : row ∈ run.rowsOf label) : row.result.Counted run.config mode := by
  obtain ⟨call, hresult⟩ := run.row_result hmode h
  rw [hresult]
  exact (run.outcomes.measured call mode label.2).counted (parseArgs_ok run.parsed).2.2

/-- No repetition has dropped anything, so the median is zero. -/
theorem dropped_cell {label : Bytes × TestCase} (h : label ∈ run.labels) :
    truncate (medianOf (run.rowsOf label) fun row => row.result.dropped.toNat) = 0 := by
  obtain ⟨mode, hmode⟩ := run.mode_valid (run.mem_labels.mp h)
  have hne : (run.rowsOf label).map (fun row => row.result.dropped.toNat) ≠ [] :=
    List.map_eq_nil_iff.not.mpr (run.rowsOf_ne_nil h)
  rw [truncate_medianOf, middleCount_zeros hne, Nat.cast_zero]
  intro count hcount
  obtain ⟨row, hrow, rfl⟩ := List.mem_map.mp hcount
  rw [(run.counted hmode hrow).dropped]
  rfl

theorem resultLine_rows {label : Bytes × TestCase} (h : label ∈ run.labels) :
    resultLine (lineKey label, (run.rowsOf label).map (readRow run.printer)) =
      .ok (run.line label) := by
  have hne := run.rowsOf_ne_nil h
  have hpayload : payloadBytesOf ((run.rowsOf label).map (readRow run.printer)) =
      .ok (some (decimalDigits (label.2.payloadSize + 6))) := by
    cases hrows : run.rowsOf label with
    | nil => exact absurd hrows hne
    | cons row rest =>
      have hrow : row ∈ run.rowsOf label := hrows ▸ List.mem_cons_self
      obtain ⟨-, htestCase, htells⟩ := run.mem_rowsOf hrow
      refine (readRow_items run.printer row).2.2.1.trans ?_
      rw [htells.payloadBytes, htestCase]
  have hcompleted := median_readRow hne fun row => (readRow_items run.printer row).1
  have hdropped := median_readRow hne fun row => (readRow_items run.printer row).2.1
  have hwall := median_readRow hne fun row => (readRow_items run.printer row).2.2.2.1
  have hhot := median_readRow hne fun row => (readRow_items run.printer row).2.2.2.2.1
  have hhot' := median_readRow hne fun row => (readRow_items run.printer row).2.2.2.2.2.1
  have hworker := median_readRow hne fun row => (readRow_items run.printer row).2.2.2.2.2.2.1
  have hworker' := median_readRow hne fun row => (readRow_items run.printer row).2.2.2.2.2.2.2
  refine bind_eq_ok.mpr ⟨_, hcompleted, bind_eq_ok.mpr ⟨_, hdropped, bind_eq_ok.mpr ⟨_, hwall,
    bind_eq_ok.mpr ⟨_, hpayload, bind_eq_ok.mpr ⟨_, hhot, bind_eq_ok.mpr ⟨_, hhot',
      bind_eq_ok.mpr ⟨_, hworker, bind_eq_ok.mpr ⟨_, hworker', ?_⟩⟩⟩⟩⟩⟩⟩⟩
  rw [truncate_medianOf, run.dropped_cell h]
  rfl

end PipelineRun

end Lines

section Reports

namespace PipelineRun

variable (run : PipelineRun)

def csv : Bytes := run.printer.csvText run.final.rows

def table : CsvFile where
  header := header
  records := run.final.rows.map run.printer.record

def metadata : Bytes := metadataOf run.config

theorem readTable_csv : readTable run.csv = some run.table := by
  rw [csv, RowPrinter.csvText_eq]
  refine readTable_text RowPrinter.header_plain fun record hrecord => ?_
  obtain ⟨row, hrow, rfl⟩ := List.mem_map.mp hrecord
  obtain ⟨mode, hmode⟩ := run.mode_valid (run.row_mode hrow)
  exact run.printer.record_plain (modeTexts_plain (mem_modeTexts hmode)).1

theorem withKey_lineKey (label : Bytes × TestCase) :
    withKey (fun row => lineKey (rowLabel row)) run.final.rows (lineKey label) =
      run.rowsOf label :=
  List.filter_congr fun _ _ => decide_eq_decide.mpr lineKey_injective.eq_iff

/-- The rows are grouped by their modes and events. -/
theorem grouped_table : ∃ groups, grouped run.table.rows = .ok groups ∧
    groups.Perm (run.labels.map fun label =>
      (lineKey label, (run.rowsOf label).map (readRow run.printer))) := by
  have hrows : run.table.rows = run.final.rows.map (readRow run.printer) := List.map_map
  have hread : ∀ row ∈ run.table.rows, groupKey row = .ok (keyOf row) := by
    intro row hrow
    rw [hrows] at hrow
    obtain ⟨source, -, rfl⟩ := List.mem_map.mp hrow
    rfl
  have hkeys : ((groupRows (fun row => lineKey (rowLabel row)) run.final.rows).map Prod.fst).Perm
      (run.labels.map lineKey) := by
    refine (List.perm_ext_iff_of_nodup (groupRows_nodup _ _)
      (run.labels_nodup.map lineKey_injective)).mpr fun key => ?_
    rw [mem_keys_groupRows, List.mem_map, List.mem_map]
    constructor
    · rintro ⟨row, hrow, rfl⟩
      exact ⟨rowLabel row, run.mem_labels.mpr (run.row_mode hrow), rfl⟩
    · rintro ⟨label, hlabel, rfl⟩
      obtain ⟨row, hrow⟩ := List.exists_mem_of_ne_nil _ (run.rowsOf_ne_nil hlabel)
      obtain ⟨hmem, hsame⟩ := List.mem_filter.mp hrow
      exact ⟨row, hmem, congrArg lineKey (of_decide_eq_true hsame)⟩
  refine ⟨_, groupRowsM_ok hread, ?_⟩
  have hfirst : (fun row => keyOf (readRow run.printer row)) = fun row => lineKey (rowLabel row) :=
    rfl
  rw [hrows, groupRows_map, hfirst, groupRows_eq, List.map_map]
  refine (hkeys.map _).trans (List.Perm.of_eq ?_)
  rw [List.map_map]
  refine List.map_congr_left fun label _ => Prod.ext rfl ?_
  exact congrArg (List.map (readRow run.printer)) (run.withKey_lineKey label)

/-- Keys of texts can be sorted. -/
theorem sortedItems_ok {groups : List Group}
    (h : ∀ group ∈ groups, group.1.mode.isSome ∧ group.1.testCase.isSome) :
    ∃ sorted, sortedItems groups = .ok sorted ∧ sorted.Perm groups := by
  have hcomparable : (groups.all fun a => groups.all fun b => comparable a.1 b.1) = true := by
    refine List.all_eq_true.mpr fun a ha => List.all_eq_true.mpr fun b hb => ?_
    simp [comparable, ordered, h a ha, h b hb]
  unfold sortedItems
  rw [if_pos hcomparable]
  exact ⟨_, rfl, List.perm_insertionSort _ _⟩

theorem results_table {groups : List Group}
    (h : groups.Perm (run.labels.map fun label =>
      (lineKey label, (run.rowsOf label).map (readRow run.printer)))) :
    ∃ results, groups.mapM resultLine = .ok results ∧ results.Perm (run.labels.map run.line) := by
  have hok : ∀ group ∈ groups, ∃ line, resultLine group = .ok line := by
    intro group hgroup
    obtain ⟨label, hlabel, rfl⟩ := List.mem_map.mp (h.mem_iff.mp hgroup)
    exact ⟨_, run.resultLine_rows hlabel⟩
  obtain ⟨results, hresults⟩ := exists_mapM_ok hok
  refine ⟨results, hresults, ?_⟩
  have hinjective : Function.Injective (Except.ok : ResultLine → Except PyError ResultLine) :=
    fun _ _ => Except.ok.inj
  rw [← List.map_perm_map_iff hinjective, ← mapM_eq_ok.mp hresults]
  refine (h.map resultLine).trans (List.Perm.of_eq ?_)
  rw [List.map_map, List.map_map]
  exact List.map_congr_left fun label hlabel => run.resultLine_rows hlabel

/-- What the line of a mode and event rests on. -/
structure Told (label : Bytes × TestCase) (mode : Mode) : Prop where
  measured : ∀ row ∈ run.rowsOf label, label.2.Measured run.outcomes.visibility
    run.outcomes.runtime run.config mode row.result
  repetitions : (run.rowsOf label).map (fun row => row.repetition.toNat) =
    (run.config.modeNames.filter (· = label.1)).flatMap fun _ =>
      List.range' 1 run.config.repetitions.toNat
  sync : mode = .syncBoth → (run.line label).completed = run.config.iterations.toNat
  full : (run.line label).completed = run.config.iterations.toNat ↔
    2 * (run.rowsOf label).countP (fun row =>
      row.result.completed.toNat < run.config.iterations.toNat) < (run.rowsOf label).length

theorem told {label : Bytes × TestCase} (h : label ∈ run.labels) {mode : Mode}
    (hmode : parseMode label.1 = .ok mode) : run.Told label mode := by
  have hne : (run.rowsOf label).map (fun row => row.result.completed.toNat) ≠ [] :=
    List.map_eq_nil_iff.not.mpr (run.rowsOf_ne_nil h)
  have hbound : ∀ count ∈ (run.rowsOf label).map (fun row => row.result.completed.toNat),
      count ≤ run.config.iterations.toNat := by
    intro count hcount
    obtain ⟨row, hrow, rfl⟩ := List.mem_map.mp hcount
    exact (run.counted hmode hrow).completed_le
  have hfull := middleCount_eq_bound_iff hne hbound
  rw [List.length_map, List.countP_map] at hfull
  have hcell : (run.line label).completed = run.config.iterations.toNat ↔
      2 * (run.rowsOf label).countP (fun row =>
        row.result.completed.toNat < run.config.iterations.toNat) < (run.rowsOf label).length :=
    Nat.cast_inj.trans hfull
  refine { measured := ?_, repetitions := run.rowsOf_repetitions label, sync := ?_, full := hcell }
  · intro row hrow
    obtain ⟨call, hresult⟩ := run.row_result hmode hrow
    rw [hresult]
    exact run.outcomes.measured call mode label.2
  · intro hsync
    have hnone : (run.rowsOf label).countP (fun row =>
        row.result.completed.toNat < run.config.iterations.toNat) = 0 := by
      refine List.countP_eq_zero.mpr fun row hrow => ?_
      rw [(run.counted hmode hrow).completed_sync hsync]
      simp
    have hlength := List.length_pos_iff.mpr (run.rowsOf_ne_nil h)
    refine hcell.mpr ?_
    rw [hnone]
    omega

end PipelineRun

/-- From the pipeline benchmark to its report, for any schedules of the threads: the table is read
back, the report has one line for each mode and event, which never shows a drop, and the completed
count in it is the full one unless half of the repetitions have left events behind. -/
theorem pipeline_reported (run : PipelineRun) :
    ∃ table results, readTable run.csv = some table ∧
      asyncPipelineReport table run.metadata = .ok {
        iterations := decimalDigits run.config.iterations.toNat
        repetitions := decimalDigits run.config.repetitions.toNat
        warmupIterations := decimalDigits run.config.warmupIterations.toNat
        queueCapacity := decimalDigits kQueueCapacity
        handoffModel := ascii "preallocated_immutable_event_pool_pointer"
        results } ∧
      results.Perm (run.labels.map run.line) ∧
      ∀ label ∈ run.labels, ∃ mode, parseMode label.1 = .ok mode ∧ run.Told label mode := by
  obtain ⟨groups, hgroups, hperm⟩ := run.grouped_table
  have hkeys : ∀ group ∈ groups, group.1.mode.isSome ∧ group.1.testCase.isSome := by
    intro group hgroup
    obtain ⟨label, -, rfl⟩ := List.mem_map.mp (hperm.mem_iff.mp hgroup)
    exact ⟨rfl, rfl⟩
  obtain ⟨sorted, hsorted, hsame⟩ := PipelineRun.sortedItems_ok hkeys
  obtain ⟨results, hresults, hlines⟩ := run.results_table (hsame.trans hperm)
  obtain ⟨hiterations, hrepetitions, hwarmup, hcapacity, hmodel⟩ :=
    readMetadata_of fun _ => run.mode_valid
  refine ⟨run.table, results, run.readTable_csv, ?_, hlines, ?_⟩
  · refine bind_eq_ok.mpr ⟨groups, hgroups, bind_eq_ok.mpr ⟨sorted, hsorted,
      bind_eq_ok.mpr ⟨results, hresults, ?_⟩⟩⟩
    simp only [PipelineRun.metadata, hiterations, hrepetitions, hwarmup, hcapacity, hmodel,
      Option.getD_some]
    rfl
  · intro label hlabel
    obtain ⟨mode, hmode⟩ := run.mode_valid (run.mem_labels.mp hlabel)
    exact ⟨mode, hmode, run.told hlabel hmode⟩

/-- The default modes, where every worker leaves at once: the report shows no drop, and no event
completed but in the synchronous mode. -/
theorem pipeline_reported_default : ∃ (run : PipelineRun) (table : CsvFile) (report : Report),
    run.config = {} ∧ readTable run.csv = some table ∧
      asyncPipelineReport table run.metadata = .ok report ∧ report.results.length = 15 ∧
      ∀ line ∈ report.results, line.dropped = 0 ∧
        line.completed = if line.key.mode = some (ascii "sync_both") then 1000000 else 0 := by
  have hcapacity := (parseArgs_ok parseArgs_nil).2.2
  obtain ⟨outcomes, -, hlost⟩ := exists_outcomes .acquireRelease hcapacity
  have htexts : ({} : Config).modeNames = modeTexts := by decide +kernel
  have hnames : ∀ modeName ∈ ({} : Config).modeNames, ∃ mode, parseMode modeName = .ok mode := by
    rw [htexts]
    simp only [modeTexts, List.map_cons, List.map_nil, List.forall_mem_cons]
    exact ⟨⟨_, rfl⟩, ⟨_, rfl⟩, ⟨_, rfl⟩, ⟨_, rfl⟩, ⟨_, rfl⟩, fun _ h => absurd h List.not_mem_nil⟩
  obtain ⟨fuel, final, hreturned⟩ := @exists_runMain {} outcomes (by decide) hnames
  let printer : RowPrinter :=
    { select := NthElement.bySorting
      mean := fun samples => fixedText ((Means.mean (samples.map fun sample =>
        (sample.toNat : ℚ))).getD 0)
      plain := fun _ => fixedText_plain _ }
  let run : PipelineRun :=
    { args := [], config := {}, parsed := parseArgs_nil, outcomes, printer, fuel, final
      returned := hreturned }
  obtain ⟨table, results, htable, hreport, hlines, htold⟩ := pipeline_reported run
  refine ⟨run, table, _, rfl, htable, hreport, ?_, ?_⟩
  · have hlabels : run.labels = modeTexts.dedup.flatMap fun modeName =>
        TestCase.all.map fun testCase => (modeName, testCase) := by rw [← htexts]; rfl
    rw [hlines.length_eq, List.length_map, hlabels]
    decide +kernel
  · intro line hline
    obtain ⟨label, hlabel, rfl⟩ := List.mem_map.mp (hlines.mem_iff.mp hline)
    obtain ⟨mode, hmode, hrests⟩ := htold label hlabel
    refine ⟨rfl, ?_⟩
    change _ = if some label.1 = some (ascii "sync_both") then _ else _
    by_cases hsync : label.1 = ascii "sync_both"
    · rw [if_pos (congrArg some hsync)]
      rw [hsync] at hmode
      exact hrests.sync (Except.ok.inj hmode).symm
    · rw [if_neg fun h => hsync (Option.some.inj h)]
      have hasync : mode ≠ .syncBoth := by
        rintro rfl
        exact hsync (name_of_sync hmode)
      refine Nat.cast_eq_zero.mpr (middleCount_zeros ?_ fun count hcount => ?_)
      · exact List.map_eq_nil_iff.not.mpr (run.rowsOf_ne_nil hlabel)
      · obtain ⟨row, hrow, rfl⟩ := List.mem_map.mp hcount
        obtain ⟨call, hresult⟩ := run.row_result hmode hrow
        rw [hresult, hlost call mode label.2 hasync]
        rfl

end Reports

end ProtobufKafkaBench.AsyncReports

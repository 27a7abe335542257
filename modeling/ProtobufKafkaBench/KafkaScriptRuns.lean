import ProtobufKafkaBench.AppendedResults
import ProtobufKafkaBench.KafkaTables
import ProtobufKafkaBench.MergeAndReport
import Mathlib.Algebra.BigOperators.Ring.Finset

/-!
The container script with the producer benchmark and the report put in. Each call of the script is
an execution of the benchmark with the arguments that the script gives to it, and the report reads
the tables that these executions have left.
-/
namespace ProtobufKafkaBench.KafkaScript

open ByteBuffers CommandLine CsvReaders CsvTables DecimalNumbers Directories Exceptions Grouping
open KafkaReports
open KafkaProducer (Arguments Librdkafka PlainConfig RunState RunStep Times Traffic completedRow
  csvText finished_rows flags parseArgs rowOf)

section Calls

/-- The path of a file of the results directory. -/
def resultPath (name : Bytes) : Bytes := ascii "/work/results/" ++ name

/-- The command line of a run. -/
def arguments (settings : Settings) (run : Run) : List Bytes :=
  [ascii "--iterations", decimalText settings.iterations,
    ascii "--repetitions", decimalText settings.repetitions,
    ascii "--warmup-iterations", settings.warmupIterations,
    ascii "--broker", settings.broker,
    ascii "--topic", run.topic,
    ascii "--mode", run.configuration.mode,
    ascii "--acks", run.configuration.acks,
    ascii "--compression", run.configuration.compression,
    ascii "--linger-ms", run.configuration.linger,
    ascii "--batch-num-messages", run.configuration.batch,
    ascii "--csv", resultPath run.output,
    ascii "--metadata", resultPath run.metadata]

/-- The benchmark from its command line to its end. librdkafka takes no setting for the
acknowledgements or the compression that a table would have to quote, and the clock's durations are
printed as numbers. -/
structure Execution (settings : Settings) (run : Run) where
  config : Arguments
  parsed : parseArgs (arguments settings run) = .ok config
  wire : Bytes
  library : Librdkafka
  settable : PlainField config.acks ∧ PlainField config.compression
  reusable : ByteBuffer wire.length
  history : List (RunState wire × Traffic)
  state : RunState wire
  steps : Transitions.Run (RunStep library config.toConfig)
    (RunState.initial config.toConfig reusable) history state
  finished : state.phase = .finished
  times : BitVec 32 → Times
  legible : ∀ repetition, (times repetition).Legible

/-- A call of the benchmark: one that comes to its end, or one that stops before and leaves
whatever it has written. -/
inductive Call (settings : Settings) (run : Run)
  | completed (execution : Execution settings run) (metadata : Bytes)
  | stopped (csv metadata : Option Bytes)

variable {settings : Settings} {run : Run}

namespace Execution

variable (execution : Execution settings run)

/-- The table that the execution leaves. -/
def csv : Bytes := csvText execution.times execution.state.rows

/-- The configuration columns of its rows. -/
def key : Key :=
  [execution.config.mode, execution.config.acks, execution.config.compression,
    decimalDigits execution.config.lingerMs.toNat,
    decimalDigits execution.config.batchNumMessages.toNat].map some

/-- The number of its messages that have not been delivered. -/
def failures : ℕ :=
  (List.range (execution.config.repetitions.toNat * execution.config.iterations.toNat)).countP
    execution.library.failed

end Execution

def Call.outcome : Call settings run → Outcome
  | .completed execution metadata =>
    { csv := some execution.csv, metadata := some metadata, succeeded := true }
  | .stopped csv metadata => { csv, metadata, succeeded := false }

end Calls

section Parsing

variable {settings : Settings} {run : Run} {config : Arguments}

/-- The benchmark gets the counts of the script, if they fit. -/
theorem counts_parsed (h : parseArgs (arguments settings run) = .ok config)
    (hiterations : 0 ≤ settings.iterations) (hrepetitions : 0 ≤ settings.repetitions)
    (hsmall : settings.repetitions < 2 ^ 32) :
    (config.iterations.toNat : ℤ) = settings.iterations ∧
      (config.repetitions.toNat : ℤ) = settings.repetitions := by
  obtain ⟨n, hn⟩ := Int.eq_ofNat_of_zero_le hiterations
  obtain ⟨m, hm⟩ := Int.eq_ofNat_of_zero_le hrepetitions
  have htexts : decimalText settings.iterations = decimalDigits n ∧
      decimalText settings.repetitions = decimalDigits m := by
    rw [hn, hm]
    exact ⟨rfl, rfl⟩
  obtain ⟨parsed, hloop, hcheck⟩ := bind_eq_ok.mp h
  obtain ⟨iterations, hstoull, hloop⟩ := parseLoop_number rfl hloop
  obtain ⟨repetitions, hstoul, hloop⟩ := parseLoop_number rfl hloop
  obtain ⟨warmup, -, hloop⟩ := parseLoop_number rfl hloop
  replace hloop := parseLoop_text rfl (parseLoop_text rfl hloop)
  replace hloop := parseLoop_text rfl (parseLoop_text rfl (parseLoop_text rfl hloop))
  obtain ⟨linger, -, hloop⟩ := parseLoop_number rfl hloop
  obtain ⟨batch, -, hloop⟩ := parseLoop_number rfl hloop
  replace hloop := parseLoop_text rfl (parseLoop_text rfl hloop)
  obtain rfl := Except.ok.inj hloop
  obtain rfl := Except.ok.inj (guard_eq_ok.mp hcheck).2
  rw [htexts.1] at hstoull
  rw [htexts.2] at hstoul
  refine ⟨?_, ?_⟩
  · change (iterations.toNat : ℤ) = settings.iterations
    rw [stoull_decimalDigits hstoull, hn]
  · change ((repetitions.setWidth 32).toNat : ℤ) = settings.repetitions
    rw [BitVec.toNat_setWidth, stoull_decimalDigits hstoul, hm, Nat.mod_eq_of_lt (by omega)]

end Parsing

section Rows

variable {times : Times} {row : KafkaProducer.Row}

/-- A row as the report reads it. -/
def readRow (times : Times) (row : KafkaProducer.Row) : DictRow :=
  dictRow KafkaProducer.header (KafkaProducer.record times row)

/-- The columns that are read for their numbers. -/
theorem readRow_numbers :
    (readRow times row).item (ascii "repetition") =
        .ok (some (decimalDigits row.repetition.toNat)) ∧
      (readRow times row).item (ascii "iterations") =
        .ok (some (decimalDigits row.iterations.toNat)) ∧
      (readRow times row).item (ascii "bytes") = .ok (some (decimalDigits row.bytes)) ∧
      (readRow times row).item (ascii "enqueue_elapsed_ns") = .ok (some times.enqueue) ∧
      (readRow times row).item (ascii "end_to_end_ns") = .ok (some times.total) ∧
      (readRow times row).item (ascii "delivery_errors") =
        .ok (some (decimalDigits row.deliveryErrors.toNat)) :=
  ⟨rfl, rfl, rfl, rfl, rfl, rfl⟩

theorem readable_readRow (h : times.Legible) : Readable (readRow times row) := by
  obtain ⟨hrepetition, hiterations, hbytes, henqueue, htotal, herrors⟩ :=
    @readRow_numbers times row
  obtain ⟨enqueue, hfirst⟩ := Option.isSome_iff_exists.mp h.enqueue
  obtain ⟨total, hsecond⟩ := Option.isSome_iff_exists.mp h.total
  refine { texts := ?_, integers := ?_, floats := ?_ }
  · have hcolumns : configNames ++ [ascii "bytes"] = [ascii "mode", ascii "acks",
        ascii "compression", ascii "linger_ms", ascii "batch_num_messages", ascii "bytes"] := rfl
    rw [hcolumns]
    simp only [List.forall_mem_cons]
    exact ⟨rfl, rfl, rfl, rfl, rfl, rfl, fun _ h => absurd h List.not_mem_nil⟩
  · simp only [List.map_cons, List.map_nil, List.forall_mem_cons]
    refine ⟨?_, ?_, ?_, fun _ h => absurd h List.not_mem_nil⟩
    · rw [intItem_of_item hrepetition (pyInt_decimalDigits _)]
      rfl
    · rw [intItem_of_item hiterations (pyInt_decimalDigits _)]
      rfl
    · rw [intItem_of_item herrors (pyInt_decimalDigits _)]
      rfl
  · simp only [List.map_cons, List.map_nil, List.forall_mem_cons]
    refine ⟨?_, ?_, fun _ h => absurd h List.not_mem_nil⟩
    · rw [floatItem_of_item henqueue hfirst]
      rfl
    · rw [floatItem_of_item htotal hsecond]
      rfl

end Rows

section Shards

/-- What a table contributes to the report. -/
structure Shard where
  rows : List DictRow
  key : Key
  failures : ℕ

def labels (repetitions : ℕ) : List (Except PyError ℤ) :=
  (List.range' 1 repetitions).map fun repetition => .ok (Int.ofNat repetition)

/-- The table of a whole execution. -/
structure Shard.Complete (iterations repetitions : ℕ) (shard : Shard) : Prop where
  readable : ∀ row ∈ shard.rows, Readable row
  keyed : ∀ row ∈ shard.rows, configuration row = shard.key
  iterations_eq : ∀ row ∈ shard.rows, row.intItem (ascii "iterations") = .ok (iterations : ℤ)
  labelled : shard.rows.map repetitionItem = labels repetitions
  counted : ∃ errors, (shard.rows.mapM fun row => row.intItem (ascii "delivery_errors")) =
    .ok errors ∧ errors.sum = (shard.failures : ℤ)

variable {iterations repetitions : ℕ} {rows : List DictRow} {shards : List Shard} {shard : Shard}

theorem labels_nodup (repetitions : ℕ) : (labels repetitions).Nodup := by
  refine (List.nodup_range' 1).map ?_
  intro first second h
  exact Int.ofNat.inj (Except.ok.inj h)

theorem labels_ne_nil (h : 0 < repetitions) : labels repetitions ≠ [] := by
  intro hnil
  have hlength := congrArg List.length hnil
  rw [labels, List.length_map, List.length_range', List.length_nil] at hlength
  omega

theorem rows_ne_nil (hcomplete : shard.Complete iterations repetitions)
    (hrepetitions : 0 < repetitions) : shard.rows ≠ [] := by
  intro hnil
  have hlabelled := hcomplete.labelled
  rw [hnil] at hlabelled
  exact labels_ne_nil hrepetitions hlabelled.symm

/-- Rows of the expected iterations are accepted if they carry the labels in order. -/
theorem validateRows_labelled_iff {path : Bytes} (hreadable : ∀ row ∈ rows, Readable row)
    (hiterations : ∀ row ∈ rows, row.intItem (ascii "iterations") = .ok (iterations : ℤ)) :
    validateRows path rows iterations repetitions = .ok () ↔
      rows.map repetitionItem = labels repetitions := by
  have hsame : rows.map (repetitionOf path iterations) = rows.map repetitionItem := by
    refine List.map_congr_left fun row hrow => ?_
    obtain ⟨n, hn⟩ := (hreadable row hrow).integer (by decide : ascii "repetition" ∈ _)
    rw [repetitionItem, hn]
    exact repetitionOf_eq_ok.mpr ⟨hiterations row hrow, hn⟩
  have hlabels : labels repetitions =
      ((List.range' 1 (repetitions : ℤ).toNat).map Int.ofNat).map Except.ok := by
    rw [List.map_map]
    rfl
  unfold validateRows
  rw [guard_eq_ok, bind_eq_ok, not_not]
  constructor
  · intro h
    obtain ⟨-, found, hfound, hcheck⟩ := h
    obtain ⟨hexpected, -⟩ := guard_eq_ok.mp hcheck
    rw [not_not] at hexpected
    rw [← hsame, mapM_eq_ok.mp hfound, hexpected, hlabels]
  · intro h
    have hlength := congrArg List.length h
    rw [labels, List.length_map, List.length_map, List.length_range'] at hlength
    refine ⟨congrArg Int.ofNat hlength, (List.range' 1 (repetitions : ℤ).toNat).map Int.ofNat,
      mapM_eq_ok.mpr ?_, guard_eq_ok.mpr ⟨not_not.mpr rfl, rfl⟩⟩
    rw [hsame, h, hlabels]

/-- The line of a complete table. -/
theorem reportRow_shard (h : shard.Complete iterations repetitions) (hiterations : 0 < iterations)
    (hrepetitions : 0 < repetitions) :
    ∃ line, reportRow (shard.key, shard.rows) = .ok line ∧ line.key = shard.key ∧
      line.values = shard.rows ∧ line.errors = shard.failures := by
  have hquotients : ∀ name ∈ ["enqueue_elapsed_ns", "end_to_end_ns"].map ascii,
      ∃ values, shard.rows.mapM (perMessage name) = .ok values := by
    intro name hname
    have heach : ∀ row ∈ shard.rows, ∃ q, perMessage name row = .ok q := by
      intro row hrow
      obtain ⟨q, hq⟩ := (h.readable row hrow).float hname
      have hzero : (iterations : ℤ) ≠ 0 := by omega
      refine ⟨q / (iterations : ℤ), bind_eq_ok.mpr ⟨q, hq, bind_eq_ok.mpr
        ⟨_, h.iterations_eq row hrow, guard_eq_ok.mpr ⟨hzero, rfl⟩⟩⟩⟩
    exact exists_mapM_ok heach
  have hne := rows_ne_nil h hrepetitions
  obtain ⟨enqueue, henqueue⟩ := hquotients (ascii "enqueue_elapsed_ns") (by decide)
  obtain ⟨total, htotal⟩ := hquotients (ascii "end_to_end_ns") (by decide)
  obtain ⟨errors, herrors, hsum⟩ := h.counted
  have hlast := List.getLast?_eq_some_getLast hne
  have hname : ascii "bytes" ∈ configNames ++ [ascii "bytes"] := by decide
  obtain ⟨bytes, hbytes⟩ := (h.readable _ (List.getLast_mem hne)).text hname
  refine ⟨{ key := shard.key, values := shard.rows, bytes, enqueue, total, errors := errors.sum },
    ?_, rfl, rfl, hsum⟩
  simp [reportRow, henqueue, htotal, herrors, hlast, DictRow.item, hbytes, bind, Except.bind,
    pure, Except.pure]

/-- Tables with a configuration each are told apart exactly by their configurations. -/
theorem separated_shards_iff (hcomplete : ∀ shard ∈ shards, shard.Complete iterations repetitions)
    (hrepetitions : 0 < repetitions) :
    Separated configuration (shards.map Shard.rows) ↔ (shards.map Shard.key).Nodup := by
  have hrow : ∀ shard ∈ shards, ∃ row, row ∈ shard.rows := fun shard hshard =>
    List.exists_mem_of_ne_nil _ (rows_ne_nil (hcomplete shard hshard) hrepetitions)
  have hone : ∀ block ∈ shards.map Shard.rows, ∀ row ∈ block, ∀ row' ∈ block,
      configuration row = configuration row' := by
    intro block hblock row hrow row' hrow'
    obtain ⟨shard, hshard, rfl⟩ := List.mem_map.mp hblock
    have hkeyed := (hcomplete shard hshard).keyed
    rw [hkeyed row hrow, hkeyed row' hrow']
  unfold Separated List.Nodup
  rw [and_iff_right hone, List.pairwise_map, List.pairwise_map]
  refine List.Pairwise.iff_of_mem fun {first second} hfirst hsecond => ?_
  constructor
  · intro h
    obtain ⟨row, hmem⟩ := hrow first hfirst
    obtain ⟨row', hmem'⟩ := hrow second hsecond
    have hne := h row hmem row' hmem'
    rwa [(hcomplete first hfirst).keyed row hmem,
      (hcomplete second hsecond).keyed row' hmem'] at hne
  · intro h row hmem row' hmem'
    rwa [(hcomplete first hfirst).keyed row hmem, (hcomplete second hsecond).keyed row' hmem']

/-- The metadata that the report reads. -/
structure Announces (text : Bytes) (runs iterations repetitions : ℕ) : Prop where
  runs_eq : readMetadata text (ascii "runs") = some (decimalDigits runs)
  iterations_eq : readMetadata text (ascii "iterations") = some (decimalDigits iterations)
  repetitions_eq : readMetadata text (ascii "repetitions") = some (decimalDigits repetitions)

variable {files : List CsvFile} {text : Bytes} {runs : ℕ}

/-- The report on readable rows checks all groups, and then has a line for each. -/
theorem kafkaReport_readable (hrows : files.flatMap CsvFile.rows = rows) (hne : rows ≠ [])
    (hreadable : ∀ row ∈ rows, Readable row) (h : Announces text runs iterations repetitions) :
    kafkaReport files text =
      ((groupRows configuration rows).forM (validateGroup iterations repetitions) >>= fun _ =>
        (sortGroups (groupRows configuration rows)).mapM reportRow >>= fun lines =>
          .ok { runs := decimalDigits runs, iterations, repetitions, rows := lines }) := by
  have hint : ∀ n : ℕ, intText (decimalDigits n) = .ok (n : ℤ) := by
    intro n
    unfold intText
    rw [pyInt_decimalDigits]
  unfold kafkaReport
  simp only [hrows, h.runs_eq, h.iterations_eq, h.repetitions_eq, Option.getD_some, hint,
    groupLoop_eq hreadable]
  rw [if_neg (by simpa using hne)]
  rfl

/-- The check of a group of readable rows, all of the expected iterations. -/
theorem validateGroup_labelled_iff {group : Key × List DictRow}
    (hgroup : group ∈ groupRows configuration rows) (hreadable : ∀ row ∈ rows, Readable row)
    (hiterations : ∀ row ∈ rows, row.intItem (ascii "iterations") = .ok (iterations : ℤ)) :
    validateGroup iterations repetitions group = .ok () ↔
      (withKey configuration rows group.1).map repetitionItem = labels repetitions := by
  have hkey : group.1 ∈ rows.map configuration :=
    (mem_keys_groupRows configuration rows _).mp (List.mem_map_of_mem hgroup)
  obtain ⟨row, hrow, hconfiguration⟩ := List.mem_map.mp hkey
  obtain ⟨joined, hjoined⟩ := joinKey_ok (hreadable row hrow)
  have hmem := mem_rows_of_group hgroup
  rw [hconfiguration] at hjoined
  rw [validateGroup, hjoined, ← groupRows_values configuration rows group hgroup]
  exact validateRows_labelled_iff (fun row hrow => hreadable row (hmem row hrow))
    fun row hrow => hiterations row (hmem row hrow)

theorem exists_map_of_perm {α β : Type} {f : α → β} {values : List α} {results : List β}
    (h : results.Perm (values.map f)) :
    ∃ sorted : List α, results = sorted.map f ∧ sorted.Perm values := by
  have hcomp : Relation.Comp (fun results sorted => results = List.map f sorted) List.Perm results
      values := by
    rw [List.eq_map_comp_perm f]
    exact h
  exact hcomp

/-- Tables of different configurations have a line each. -/
theorem lines_of_shards (hcomplete : ∀ shard ∈ shards, shard.Complete iterations repetitions)
    (hiterations : 0 < iterations) (hrepetitions : 0 < repetitions)
    (hnodup : (shards.map Shard.key).Nodup) :
    ∃ lines, (sortGroups (groupRows configuration (shards.flatMap Shard.rows))).mapM reportRow =
        .ok lines ∧
      (lines.map fun line => (line.key, line.errors)).Perm
        (shards.map fun shard => (shard.key, (shard.failures : ℤ))) := by
  have hgroups : groupRows configuration (shards.flatMap Shard.rows) =
      shards.map fun shard => (shard.key, shard.rows) :=
    groupRows_blocks hnodup (fun shard hshard => (hcomplete shard hshard).keyed)
      fun shard hshard => rows_ne_nil (hcomplete shard hshard) hrepetitions
  have hsort : (sortGroups (shards.map fun shard => (shard.key, shard.rows))).Perm
      (shards.map fun shard => (shard.key, shard.rows)) := List.mergeSort_perm _ _
  obtain ⟨sorted, hsorted, hperm⟩ := exists_map_of_perm hsort
  have heach : ∀ shard ∈ sorted, ∃ line, reportRow (shard.key, shard.rows) = .ok line ∧
      line.key = shard.key ∧ line.values = shard.rows ∧ line.errors = shard.failures :=
    fun shard hshard =>
      reportRow_shard (hcomplete shard (hperm.mem_iff.mp hshard)) hiterations hrepetitions
  choose! line hline hkey _ herrors using heach
  refine ⟨sorted.map line, ?_, ?_⟩
  · rw [hgroups, hsorted, mapM_eq_ok, List.map_map, List.map_map]
    exact List.map_congr_left hline
  · rw [List.map_map]
    refine List.Perm.trans (List.Perm.of_eq ?_) (hperm.map _)
    exact List.map_congr_left fun shard hshard =>
      Prod.ext (hkey shard hshard) (herrors shard hshard)

/-- The report on complete tables is written exactly if there are tables and no two of them have
the same configuration, and then it has a line for each. -/
theorem report_shards (hrows : files.flatMap CsvFile.rows = shards.flatMap Shard.rows)
    (hcomplete : ∀ shard ∈ shards, shard.Complete iterations repetitions)
    (hiterations : 0 < iterations) (hrepetitions : 0 < repetitions)
    (hmetadata : Announces text runs iterations repetitions) :
    ((∃ report, kafkaReport files text = .ok report) ↔
        shards ≠ [] ∧ (shards.map Shard.key).Nodup) ∧
      ∀ report, kafkaReport files text = .ok report →
        report.runs = decimalDigits runs ∧ report.iterations = iterations ∧
          report.repetitions = repetitions ∧
          (report.rows.map fun line => (line.key, line.errors)).Perm
            (shards.map fun shard => (shard.key, (shard.failures : ℤ))) := by
  by_cases hne : shards = []
  · have herror : kafkaReport files text =
        .error (.systemExit (ascii "no Kafka producer CSV files found")) := by
      unfold kafkaReport
      rw [hrows, hne]
      rfl
    rw [herror]
    refine ⟨⟨fun h => ?_, fun h => absurd hne h.1⟩, fun report h => by cases h⟩
    obtain ⟨report, h⟩ := h
    cases h
  have hmem : ∀ row ∈ shards.flatMap Shard.rows, ∃ shard ∈ shards, row ∈ shard.rows :=
    fun row hrow => List.mem_flatMap.mp hrow
  have hreadable : ∀ row ∈ shards.flatMap Shard.rows, Readable row := by
    intro row hrow
    obtain ⟨shard, hshard, hrow⟩ := hmem row hrow
    exact (hcomplete shard hshard).readable row hrow
  have hequal : ∀ row ∈ shards.flatMap Shard.rows,
      row.intItem (ascii "iterations") = .ok (iterations : ℤ) := by
    intro row hrow
    obtain ⟨shard, hshard, hrow⟩ := hmem row hrow
    exact (hcomplete shard hshard).iterations_eq row hrow
  have hsome : shards.flatMap Shard.rows ≠ [] := by
    intro hnil
    obtain ⟨shard, hshard⟩ := List.exists_mem_of_ne_nil _ hne
    exact rows_ne_nil (hcomplete shard hshard) hrepetitions
      (List.flatMap_eq_nil_iff.mp hnil shard hshard)
  -- the check of all groups decides whether the tables are told apart
  have hchecked : (groupRows configuration (shards.flatMap Shard.rows)).forM
      (validateGroup iterations repetitions) = .ok () ↔ (shards.map Shard.key).Nodup := by
    have hlabelled : ∀ block ∈ shards.map Shard.rows,
        block.map repetitionItem = labels repetitions := by
      intro block hblock
      obtain ⟨shard, hshard, rfl⟩ := List.mem_map.mp hblock
      exact (hcomplete shard hshard).labelled
    have hseparated : _ ↔ Separated configuration _ :=
      groups_labelled_iff_separated (labels_nodup repetitions) (labels_ne_nil hrepetitions)
        hlabelled
    rw [← separated_shards_iff hcomplete hrepetitions, ← hseparated, ← List.flatMap_def, forM_eq_ok]
    constructor
    · intro h key hkey
      obtain ⟨group, hgroup, rfl⟩ := List.mem_map.mp
        ((mem_keys_groupRows configuration _ key).mpr hkey)
      exact (validateGroup_labelled_iff hgroup hreadable hequal).mp (h group hgroup)
    · intro h group hgroup
      refine (validateGroup_labelled_iff hgroup hreadable hequal).mpr (h group.1 ?_)
      exact (mem_keys_groupRows configuration _ _).mp (List.mem_map_of_mem hgroup)
  rw [kafkaReport_readable hrows hsome hreadable hmetadata]
  refine ⟨⟨fun h => ?_, fun h => ?_⟩, fun report h => ?_⟩
  · obtain ⟨report, h⟩ := h
    obtain ⟨⟨⟩, hforM, -⟩ := bind_eq_ok.mp h
    exact ⟨hne, hchecked.mp hforM⟩
  · obtain ⟨lines, hlines, -⟩ := lines_of_shards hcomplete hiterations hrepetitions h.2
    exact ⟨_, bind_eq_ok.mpr ⟨(), hchecked.mpr h.2, bind_eq_ok.mpr ⟨lines, hlines, rfl⟩⟩⟩
  · obtain ⟨⟨⟩, hforM, hrest⟩ := bind_eq_ok.mp h
    obtain ⟨found, hfound, hresult⟩ := bind_eq_ok.mp hrest
    obtain ⟨lines, hlines, hperm⟩ :=
      lines_of_shards hcomplete hiterations hrepetitions (hchecked.mp hforM)
    obtain rfl := Except.ok.inj (hfound.symm.trans hlines)
    obtain rfl := Except.ok.inj hresult
    exact ⟨rfl, rfl, rfl, hperm⟩

end Shards

section Executions

variable {settings : Settings} {run : Run} (execution : Execution settings run)

namespace Execution

def shard : Shard where
  rows := execution.state.rows.map fun row => readRow (execution.times row.repetition) row
  key := execution.key
  failures := execution.failures

theorem rows_eq : execution.state.rows =
    (List.range execution.config.repetitions.toNat).map
      (completedRow execution.library execution.config.toConfig execution.wire.length) :=
  finished_rows execution.steps execution.finished

/-- Every row has the columns of the configuration. -/
theorem exists_row {row : KafkaProducer.Row} (h : row ∈ execution.state.rows) :
    ∃ repetition errors,
      row = rowOf execution.config.toConfig execution.wire.length repetition errors := by
  rw [rows_eq] at h
  obtain ⟨j, -, rfl⟩ := List.mem_map.mp h
  exact ⟨_, _, rfl⟩

/-- Python reads the table as it was written. -/
theorem readTable_csv : ∃ table, readTable execution.csv = some table ∧
    table.rows = execution.shard.rows := by
  have hplain : PlainConfig execution.config.toConfig := by
    refine { mode := ?_, acks := execution.settable.1, compression := execution.settable.2 }
    rcases KafkaProducer.mode_of_finished execution.steps execution.finished with hmode | hmode
    · rw [hmode]
      exact plainField_of_all (by decide)
    · rw [hmode]
      exact plainField_of_all (by decide)
  let records := execution.state.rows.map fun row =>
    KafkaProducer.record (execution.times row.repetition) row
  refine ⟨⟨KafkaProducer.header, records⟩, ?_, List.map_map⟩
  rw [csv, KafkaProducer.csvText_eq]
  refine readTable_text KafkaProducer.header_plain fun fields hfields => ?_
  obtain ⟨row, hrow, rfl⟩ := List.mem_map.mp hfields
  obtain ⟨repetition, errors, rfl⟩ := execution.exists_row hrow
  exact KafkaProducer.record_plain hplain (execution.legible _) _ _ _

/-- The table of an execution is complete, and counts its undelivered messages. -/
theorem complete {iterations repetitions : ℕ}
    (hiterations : execution.config.iterations.toNat = iterations)
    (hrepetitions : execution.config.repetitions.toNat = repetitions) :
    execution.shard.Complete iterations repetitions := by
  have hread : ∀ row ∈ execution.shard.rows, ∃ times repetition errors, times.Legible ∧
      row = readRow times
        (rowOf execution.config.toConfig execution.wire.length repetition errors) := by
    intro row hrow
    obtain ⟨written, hwritten, rfl⟩ := List.mem_map.mp hrow
    obtain ⟨repetition, errors, rfl⟩ := execution.exists_row hwritten
    exact ⟨_, _, _, execution.legible _, rfl⟩
  have hbound := execution.config.repetitions.isLt
  refine { readable := ?_, keyed := ?_, iterations_eq := ?_, labelled := ?_, counted := ?_ }
  · intro row hrow
    obtain ⟨times, repetition, errors, hlegible, rfl⟩ := hread row hrow
    exact readable_readRow hlegible
  · intro row hrow
    obtain ⟨times, repetition, errors, -, rfl⟩ := hread row hrow
    rfl
  · intro row hrow
    obtain ⟨times, repetition, errors, -, rfl⟩ := hread row hrow
    rw [← hiterations]
    exact intItem_of_item readRow_numbers.2.1 (pyInt_decimalDigits _)
  · rw [shard, rows_eq, hrepetitions, List.map_map, List.map_map, labels, List.range'_eq_map_range,
      List.map_map]
    refine List.map_congr_left fun j hj => ?_
    have hlt := List.mem_range.mp hj
    have hnumber : (BitVec.ofNat 32 (j + 1)).toNat = 1 + j := by
      rw [BitVec.toNat_ofNat, Nat.mod_eq_of_lt (by omega), Nat.add_comm]
    have hitem := intItem_of_item (@readRow_numbers (execution.times (BitVec.ofNat 32 (j + 1)))
      (completedRow execution.library execution.config.toConfig execution.wire.length j)).1
      (pyInt_decimalDigits _)
    change _ = Except.ok (((BitVec.ofNat 32 (j + 1)).toNat : ℕ) : ℤ) at hitem
    rw [hnumber] at hitem
    exact hitem
  · let windows := (List.range execution.config.repetitions.toNat).map fun j =>
      (List.range' (j * execution.config.iterations.toNat)
        execution.config.iterations.toNat).countP execution.library.failed
    refine ⟨windows.map Nat.cast, ?_, ?_⟩
    · rw [mapM_eq_ok, shard, rows_eq, List.map_map, List.map_map, List.map_map, List.map_map]
      refine List.map_congr_left fun j _ => ?_
      have hsize := execution.config.iterations.isLt
      have hcount := List.countP_le_length (p := execution.library.failed)
        (l := List.range' (j * execution.config.iterations.toNat)
          execution.config.iterations.toNat)
      rw [List.length_range'] at hcount
      have hitem := intItem_of_item (@readRow_numbers (execution.times (BitVec.ofNat 32 (j + 1)))
        (completedRow execution.library execution.config.toConfig execution.wire.length
          j)).2.2.2.2.2 (pyInt_decimalDigits _)
      change _ = Except.ok (((BitVec.ofNat 64 ((List.range'
        (j * execution.config.iterations.toNat) execution.config.iterations.toNat).countP
          execution.library.failed)).toNat : ℕ) : ℤ) at hitem
      rw [BitVec.toNat_ofNat, Nat.mod_eq_of_lt (by omega)] at hitem
      exact hitem
    · have hsum := KafkaProducer.sum_windows execution.library.failed
        execution.config.iterations.toNat execution.config.repetitions.toNat
      change (windows.map Nat.cast).sum = ((execution.failures : ℕ) : ℤ)
      rw [failures, ← hsum, Nat.cast_list_sum]

end Execution

end Executions

section Tables

/-- The tables of the directory in the order of `sorted(glob.glob(...))`. -/
def globbed (d : Results) : List (Bytes × Bytes) :=
  (d.entries.filter fun entry => isShardName entry.1).mergeSort
    fun a b => decide (a.1 ≤ b.1)

/-- The tables as the csv reader sees them, if it takes them all. -/
def readTables (d : Results) : Option (List CsvFile) :=
  (globbed d).mapM fun entry => readTable entry.2

variable {settings : Settings} {benchmark : Run → Outcome}

theorem outputName_isShardName (index : ℕ) : isShardName (outputName index) = true := by
  have hprefix : outputName index =
      ascii "kafka_producer_" ++ (decimalDigits index ++ ascii ".csv") := List.append_assoc _ _ _
  rw [isShardName, Bool.and_eq_true, List.isPrefixOf_iff_prefix, List.isSuffixOf_iff_suffix,
    hprefix, List.drop_left]
  exact ⟨List.prefix_append _ _, List.suffix_append _ _⟩

theorem output_isShardName {cs : List Configuration} {runIndex : ℕ} {d : Results} {run : Run}
    (h : run ∈ (runLoop settings benchmark cs runIndex d).runs) :
    isShardName run.output = true := by
  rw [((runLoop_indices settings benchmark cs runIndex d).2 run h).1]
  exact outputName_isShardName run.index

/-- The number of the last run. -/
theorem runLoop_runIndex (cs : List Configuration) (runIndex : ℕ) (d : Results) :
    (runLoop settings benchmark cs runIndex d).runIndex =
      runIndex + (runLoop settings benchmark cs runIndex d).runs.length := by
  induction cs generalizing runIndex d with
  | nil => rfl
  | cons c rest ih =>
    unfold runLoop
    by_cases hsucceeded : (benchmark (runOf settings c (runIndex + 1))).succeeded = true
    · by_cases hreached :
          0 < bashValue settings.maxRuns ∧ bashValue settings.maxRuns ≤ (runIndex + 1 : ℕ)
      · rw [if_pos hsucceeded, if_pos hreached]
        rfl
      · rw [if_pos hsucceeded, if_neg hreached]
        have hmore := ih (runIndex + 1) (record d (runOf settings c (runIndex + 1))
          (benchmark (runOf settings c (runIndex + 1))))
        simp only [hmore, List.length_cons]
        omega
    · rw [if_neg hsucceeded]
      rfl

/-- The script gets to its report if no call fails. -/
theorem runLoop_finished {cs : List Configuration} {runIndex : ℕ} {d : Results}
    (h : ∀ run ∈ (runLoop settings benchmark cs runIndex d).runs,
      (benchmark run).succeeded = true) :
    (runLoop settings benchmark cs runIndex d).finished = true := by
  induction cs generalizing runIndex d with
  | nil => rfl
  | cons c rest ih =>
    unfold runLoop at h ⊢
    by_cases hsucceeded : (benchmark (runOf settings c (runIndex + 1))).succeeded = true
    · by_cases hreached :
          0 < bashValue settings.maxRuns ∧ bashValue settings.maxRuns ≤ (runIndex + 1 : ℕ)
      · rw [if_pos hsucceeded, if_pos hreached]
      · rw [if_pos hsucceeded, if_neg hreached] at h ⊢
        exact ih fun run hrun => h run (List.mem_cons_of_mem _ hrun)
    · rw [if_neg hsucceeded] at h
      exact absurd (h _ List.mem_cons_self) hsucceeded

theorem read_record {d : Results} {run : Run} {outcome : Outcome} {content : Bytes}
    (h : outcome.csv = some content) : (record d run outcome).read run.output = some content := by
  rw [record, h]
  exact Directory.read_write_self _ _ _

/-- Each run's output holds what its call has written. -/
theorem runLoop_read_output {cs : List Configuration} {runIndex : ℕ} {d : Results} {run : Run}
    {content : Bytes} (hrun : run ∈ (runLoop settings benchmark cs runIndex d).runs)
    (hcsv : (benchmark run).csv = some content) :
    (runLoop settings benchmark cs runIndex d).directory.read run.output = some content := by
  induction cs generalizing runIndex d with
  | nil => cases hrun
  | cons c rest ih =>
    unfold runLoop at hrun ⊢
    by_cases hsucceeded : (benchmark (runOf settings c (runIndex + 1))).succeeded = true
    · by_cases hreached :
          0 < bashValue settings.maxRuns ∧ bashValue settings.maxRuns ≤ (runIndex + 1 : ℕ)
      · rw [if_pos hsucceeded, if_pos hreached] at hrun ⊢
        obtain rfl := List.mem_singleton.mp hrun
        exact read_record hcsv
      · rw [if_pos hsucceeded, if_neg hreached] at hrun ⊢
        rcases List.mem_cons.mp hrun with rfl | hrun
        · have hlater := runLoop_indices settings benchmark rest (runIndex + 1)
            (record d (runOf settings c (runIndex + 1))
              (benchmark (runOf settings c (runIndex + 1))))
          refine (runLoop_read settings benchmark fun later hmem => ⟨fun _ => ?_, ?_⟩).trans
            (read_record hcsv)
          · rw [(hlater.2 later hmem).1]
            intro heq
            have hindex := List.mem_map_of_mem (f := Run.index) hmem
            rw [hlater.1, ← outputName_injective heq, List.mem_range'_1] at hindex
            omega
          · rw [(hlater.2 later hmem).2]
            intro heq
            have htable := outputName_isShardName (runIndex + 1)
            change outputName (runIndex + 1) = _ at heq
            rw [heq, metadataName_not_table] at htable
            cases htable
        · exact ih hrun
    · rw [if_neg hsucceeded] at hrun ⊢
      obtain rfl := List.mem_singleton.mp hrun
      exact read_record hcsv

/-- A directory whose tables are the outputs of some runs. -/
theorem globbed_perm {d : Results} {runs : List Run} {csv : Run → Bytes}
    (hnodup : (runs.map Run.output).Nodup)
    (htable : ∀ run ∈ runs, isShardName run.output = true ∧ d.read run.output = some (csv run))
    (hothers : ∀ name, isShardName name = true → name ∉ runs.map Run.output →
      d.read name = none) :
    (globbed d).Perm (runs.map fun run => (run.output, csv run)) := by
  refine (List.mergeSort_perm _ _).trans ((List.perm_ext_iff_of_nodup ?_ ?_).mpr ?_)
  · exact (List.Nodup.of_map _ d.nodup).filter _
  · refine List.Nodup.of_map Prod.fst ?_
    rw [List.map_map]
    exact hnodup
  · intro entry
    obtain ⟨name, content⟩ := entry
    rw [List.mem_filter, Directory.mem_entries_iff, List.mem_map]
    constructor
    · intro h
      obtain ⟨hread, hname⟩ := h
      by_cases hmem : name ∈ runs.map Run.output
      · obtain ⟨run, hrun, rfl⟩ := List.mem_map.mp hmem
        rw [(htable run hrun).2] at hread
        exact ⟨run, hrun, Prod.ext rfl (Option.some.inj hread)⟩
      · rw [hothers name hname hmem] at hread
        cases hread
    · intro h
      obtain ⟨run, hrun, heq⟩ := h
      obtain ⟨rfl, rfl⟩ := Prod.mk.inj heq
      exact ⟨(htable run hrun).2, (htable run hrun).1⟩

end Tables

section Summary

variable {settings : Settings}

/-- The summary file of the script. -/
theorem announces_summary {iterations repetitions : ℕ}
    (hiterations : settings.iterations = iterations)
    (hrepetitions : settings.repetitions = repetitions) (runs : ℕ) :
    Announces (summary settings runs) runs iterations repetitions := by
  let entries : List (Bytes × Bytes) :=
    [(ascii "runs", decimalDigits runs), (ascii "iterations", decimalDigits iterations),
      (ascii "repetitions", decimalDigits repetitions)]
  have htext : summary settings runs = metadataText entries := by
    unfold summary
    rw [hiterations, hrepetitions]
    simp [metadataText, entries, ascii, decimalText]
  have hclean : ∀ entry ∈ entries, Clean entry :=
    List.forall_mem_cons.mpr ⟨clean_decimalDigits (by decide) (no_line_break (by decide)) _,
      List.forall_mem_cons.mpr ⟨clean_decimalDigits (by decide) (no_line_break (by decide)) _,
        List.forall_mem_cons.mpr ⟨clean_decimalDigits (by decide) (no_line_break (by decide)) _,
          fun _ h => absurd h List.not_mem_nil⟩⟩⟩
  have hread := readMetadata_metadataText hclean
  rw [← htext] at hread
  exact { runs_eq := hread _, iterations_eq := hread _, repetitions_eq := hread _ }

end Summary

section Container

variable {settings : Settings} {benchmark : Run → Outcome} {report : Results → Option Bytes}
  {d : Results}

/-- What the script leaves behind where it does not append and no call fails: the tables of its
runs and their number. -/
theorem container_leaves {csv : Run → Bytes} (hfresh : settings.appendResults = false)
    (hiterations : 1000000 ≤ bashValue settings.iterations)
    (hrepetitions : 10 ≤ bashValue settings.repetitions)
    (hsucceeded : ∀ run ∈ (container settings benchmark report d).runs,
      (benchmark run).succeeded = true)
    (hcsv : ∀ run ∈ (container settings benchmark report d).runs,
      (benchmark run).csv = some (csv run)) :
    (globbed (container settings benchmark report d).directory).Perm
        ((container settings benchmark report d).runs.map fun run => (run.output, csv run)) ∧
      (container settings benchmark report d).directory.read summaryName =
        some (summary settings (container settings benchmark report d).runs.length) := by
  have hsize : ¬ (bashValue settings.iterations < 1000000 ∨
      bashValue settings.repetitions < 10) := by omega
  let loop := runLoop settings benchmark (configurations settings) 0 (removed d)
  have hcontainer : container settings benchmark report d =
      if loop.finished then
        { runs := loop.runs
          directory := opened (loop.directory.write summaryName (summary settings loop.runIndex))
            reportName (report (loop.directory.write summaryName
              (summary settings loop.runIndex))) }
      else { runs := loop.runs, directory := loop.directory } := by
    unfold container
    rw [if_neg hsize, hfresh]
    rfl
  have hruns : (container settings benchmark report d).runs = loop.runs := by
    rw [hcontainer]
    split <;> rfl
  rw [hruns] at hsucceeded hcsv
  have hfinished : loop.finished = true := runLoop_finished hsucceeded
  have hindex : loop.runIndex = loop.runs.length := by
    have hcount : loop.runIndex = 0 + loop.runs.length := runLoop_runIndex _ _ _
    rwa [Nat.zero_add] at hcount
  rw [hcontainer, if_pos hfinished, hindex]
  obtain ⟨hindices, hnames⟩ :=
    runLoop_indices settings benchmark (configurations settings) 0 (removed d)
  have hnodup : (loop.runs.map Run.output).Nodup := by
    have houtputs : loop.runs.map Run.output = (loop.runs.map Run.index).map outputName := by
      rw [List.map_map]
      exact List.map_congr_left fun run hrun => (hnames run hrun).1
    rw [houtputs, hindices]
    exact (List.nodup_range' 1).map fun i j => outputName_injective
  have hkept : ∀ name, isShardName name = true →
      (opened (loop.directory.write summaryName (summary settings loop.runs.length)) reportName
        (report (loop.directory.write summaryName
          (summary settings loop.runs.length)))).read name = loop.directory.read name := by
    intro name hname
    have hsummary : name ≠ summaryName := by
      intro heq
      rw [heq] at hname
      exact absurd hname (by decide)
    have hreport : name ≠ reportName := by
      intro heq
      rw [heq] at hname
      exact absurd hname (by decide)
    rw [read_opened fun _ => hreport, Directory.read_write_other hsummary]
  refine ⟨globbed_perm hnodup ?_ ?_, ?_⟩
  · intro run hrun
    have hname := output_isShardName hrun
    refine ⟨hname, ?_⟩
    rw [hkept run.output hname]
    exact runLoop_read_output hrun (hcsv run hrun)
  · intro name hname hother
    rw [hkept name hname]
    refine (runLoop_read settings benchmark fun run hrun => ⟨?_, ?_⟩).trans ?_
    · intro _ heq
      exact hother (heq ▸ List.mem_map_of_mem hrun)
    · intro heq
      rw [heq, (hnames run hrun).2, metadataName_not_table] at hname
      cases hname
    · refine Directory.read_removeAll ?_
      rw [hname]
      rfl
  · rw [read_opened fun _ => by decide, Directory.read_write_self]

/-- The table of a call that comes to its end, and what it contributes to the report. -/
def Call.csv {run : Run} : Call settings run → Bytes
  | .completed execution _ => execution.csv
  | .stopped _ _ => []

def Call.shard {run : Run} : Call settings run → Shard
  | .completed execution _ => execution.shard
  | .stopped _ _ => { rows := [], key := [], failures := 0 }

theorem exists_execution {run : Run} {call : Call settings run}
    (h : call.outcome.succeeded = true) : ∃ execution metadata,
      call = .completed execution metadata := by
  cases call with
  | completed execution metadata => exact ⟨execution, metadata, rfl⟩
  | stopped csv metadata => cases h

/-- A count that the shell accepts is not zero. -/
theorem pos_of_bashValue {z : ℤ} (hsign : 0 ≤ z) (h : 0 < bashValue z) : 0 < z := by
  rcases hsign.eq_or_lt with rfl | hpos
  · exact absurd h (by decide)
  · exact hpos

/-- The script from its matrix to its report: if it does not append, its size is accepted, its
counts are not negative, the repetitions fit in 32 bits and no call fails, its tables are read, and
the report is written exactly if it has made a run and no two runs show the same configuration. It
then has a line for each run, with the number of messages of this run that were not delivered. -/
theorem container_reported (calls : (run : Run) → Call settings run)
    (hfresh : settings.appendResults = false)
    (hiterations : 1000000 ≤ bashValue settings.iterations)
    (hrepetitions : 10 ≤ bashValue settings.repetitions)
    (hsigns : 0 ≤ settings.iterations ∧ 0 ≤ settings.repetitions)
    (hsmall : settings.repetitions < 2 ^ 32)
    (hsucceeded : ∀ run ∈ (container settings (fun run => (calls run).outcome) report d).runs,
      (calls run).outcome.succeeded = true) :
    let outputs := container settings (fun run => (calls run).outcome) report d
    ∃ files text, readTables outputs.directory = some files ∧
      outputs.directory.read summaryName = some text ∧
      ((∃ result, kafkaReport files text = .ok result) ↔
        outputs.runs ≠ [] ∧ (outputs.runs.map fun run => (calls run).shard.key).Nodup) ∧
      ∀ result, kafkaReport files text = .ok result →
        result.runs = decimalDigits outputs.runs.length ∧
          result.iterations = settings.iterations ∧ result.repetitions = settings.repetitions ∧
          (result.rows.map fun line => (line.key, line.errors)).Perm
            (outputs.runs.map fun run =>
              ((calls run).shard.key, ((calls run).shard.failures : ℤ))) := by
  intro outputs
  have hpositive := pos_of_bashValue hsigns.1 (by omega)
  have hpositive' := pos_of_bashValue hsigns.2 (by omega)
  obtain ⟨iterations, hiter⟩ := Int.eq_ofNat_of_zero_le hsigns.1
  obtain ⟨repetitions, hreps⟩ := Int.eq_ofNat_of_zero_le hsigns.2
  have hcsv : ∀ run ∈ outputs.runs, (calls run).outcome.csv = some (calls run).csv := by
    intro run hrun
    obtain ⟨execution, metadata, hcall⟩ := exists_execution (hsucceeded run hrun)
    rw [hcall]
    rfl
  obtain ⟨hperm, hsummary⟩ := container_leaves hfresh hiterations hrepetitions hsucceeded hcsv
  obtain ⟨sorted, hsorted, hruns⟩ := exists_map_of_perm hperm
  have hread : ∀ run ∈ sorted, ∃ table, readTable (calls run).csv = some table ∧
      table.rows = (calls run).shard.rows := by
    intro run hrun
    obtain ⟨execution, metadata, hcall⟩ :=
      exists_execution (hsucceeded run (hruns.mem_iff.mp hrun))
    rw [hcall]
    exact execution.readTable_csv
  have hsome : Nonempty CsvFile := ⟨⟨[], []⟩⟩
  choose! table htable hrows using hread
  have hcomplete : ∀ shard ∈ sorted.map fun run => (calls run).shard,
      shard.Complete iterations repetitions := by
    intro shard hshard
    obtain ⟨run, hrun, rfl⟩ := List.mem_map.mp hshard
    obtain ⟨execution, metadata, hcall⟩ :=
      exists_execution (hsucceeded run (hruns.mem_iff.mp hrun))
    obtain ⟨hn, hm⟩ := counts_parsed execution.parsed hsigns.1 hsigns.2 hsmall
    rw [hcall]
    exact execution.complete (by omega) (by omega)
  have hflat : (sorted.map table).flatMap CsvFile.rows =
      (sorted.map fun run => (calls run).shard).flatMap Shard.rows := by
    rw [List.flatMap_map, List.flatMap_map]
    exact List.flatMap_congr fun run hrun => hrows run hrun
  obtain ⟨hwritten, hlines⟩ := report_shards hflat hcomplete (by omega) (by omega)
    (announces_summary hiter hreps outputs.runs.length)
  refine ⟨sorted.map table, summary settings outputs.runs.length, ?_, hsummary, ?_, ?_⟩
  · unfold readTables
    rw [hsorted, List.mapM_map]
    exact mapM_some htable
  · rw [hwritten, List.map_map]
    have hempty : (sorted.map fun run => (calls run).shard) ≠ [] ↔ outputs.runs ≠ [] := by
      rw [Ne, List.map_eq_nil_iff, ← List.length_eq_zero_iff, hruns.length_eq,
        List.length_eq_zero_iff]
    rw [hempty, (hruns.map _).nodup_iff]
    rfl
  · intro result hresult
    obtain ⟨hcount, hn, hm, hperm⟩ := hlines result hresult
    refine ⟨hcount, hn.trans hiter.symm, hm.trans hreps.symm, hperm.trans ?_⟩
    rw [List.map_map]
    exact hruns.map _

/-- A matrix of one configuration. -/
def oneSetting : Settings where
  modes := [ascii "copy"]
  acks := [ascii "0"]
  compressions := [ascii "none"]
  lingers := [ascii "0"]
  batches := [ascii "1"]

def oneRun : Run :=
  runOf oneSetting ⟨ascii "copy", ascii "0", ascii "none", ascii "0", ascii "1"⟩ 1

def oneTime : Times where
  enqueue := ascii "1.000"
  flush := ascii "1.000"
  total := ascii "2.000"
  perEncode := ascii "0.000"
  perSecond := ascii "500000000000000.000"

theorem oneTime_legible : oneTime.Legible where
  plain := by
    simp only [oneTime, List.forall_mem_cons]
    exact ⟨plainField_of_all (by decide), plainField_of_all (by decide),
      plainField_of_all (by decide), plainField_of_all (by decide), plainField_of_all (by decide),
      fun _ h => absurd h List.not_mem_nil⟩
  enqueue := by decide
  total := by decide

theorem exists_oneRun : Nonempty (Execution oneSetting oneRun) := by
  obtain ⟨config, hparsed, hmode, hacks, hcompression, hrepetitions⟩ :
      ∃ config, parseArgs (arguments oneSetting oneRun) = .ok config ∧
        config.mode = ascii "copy" ∧ config.acks = ascii "0" ∧
        config.compression = ascii "none" ∧ config.repetitions = 10 :=
    ⟨_, rfl, rfl, rfl, rfl, rfl⟩
  have hleft : config.repetitions.toNat < 2 ^ 32 - 1 := by
    rw [hrepetitions]
    decide
  let library : Librdkafka := ⟨fun _ => [], fun _ => .noError⟩
  obtain ⟨history, state, steps, finished, -⟩ :=
    @KafkaProducer.exists_finished [7] library config.toConfig hmode hleft ⟨[0], rfl⟩
  exact ⟨{ config, parsed := hparsed, wire := [7], library, reusable := ⟨[0], rfl⟩, history, state
           steps, finished
           settable := by
             rw [hacks, hcompression]
             exact ⟨plainField_of_all (by decide), plainField_of_all (by decide)⟩
           times := fun _ => oneTime
           legible := fun _ => oneTime_legible }⟩

/-- A single run, all of whose messages are delivered. -/
theorem container_reported_one : ∃ (calls : (run : Run) → Call oneSetting run)
    (files : List CsvFile) (text : Bytes) (result : Report),
    readTables (container oneSetting (fun run => (calls run).outcome) (fun _ => none)
      ⟨[], List.nodup_nil⟩).directory = some files ∧ kafkaReport files text = .ok result ∧
      result.runs = ascii "1" ∧ result.rows.length = 1 := by
  obtain ⟨execution⟩ := exists_oneRun
  let calls : (run : Run) → Call oneSetting run := fun run =>
    if h : run = oneRun then h ▸ .completed execution [] else .stopped none none
  have hcall : calls oneRun = .completed execution [] := dif_pos rfl
  have hsucceeded : (calls oneRun).outcome.succeeded = true := by
    rw [hcall]
    rfl
  have hruns : (container oneSetting (fun run => (calls run).outcome) (fun _ => none)
      ⟨[], List.nodup_nil⟩).runs = [oneRun] := by
    have hloop : runLoop oneSetting (fun run => (calls run).outcome) (configurations oneSetting) 0
        (removed ⟨[], List.nodup_nil⟩) =
          { runs := [oneRun], runIndex := 1,
            directory := record (removed ⟨[], List.nodup_nil⟩) oneRun (calls oneRun).outcome
            finished := true } := by
      have hone : configurations oneSetting =
          [⟨ascii "copy", ascii "0", ascii "none", ascii "0", ascii "1"⟩] := rfl
      rw [hone]
      unfold runLoop
      exact (if_pos hsucceeded).trans rfl
    have hsize : ¬ (bashValue oneSetting.iterations < 1000000 ∨
        bashValue oneSetting.repetitions < 10) := by decide
    have hfresh : oneSetting.appendResults = false := rfl
    unfold container
    rw [if_neg hsize, hfresh]
    simp only [Bool.false_eq_true, if_false, hloop, if_true]
  obtain ⟨files, text, hfiles, -, hwritten, hlines⟩ :=
    @container_reported _ (fun _ => none) ⟨[], List.nodup_nil⟩ calls rfl (by decide) (by decide)
      (by decide) (by decide) (by
        rw [hruns]
        intro run hrun
        rw [List.mem_singleton.mp hrun]
        exact hsucceeded)
  rw [hruns] at hwritten hlines
  obtain ⟨result, hresult⟩ := hwritten.mpr ⟨List.cons_ne_nil _ _, List.nodup_singleton _⟩
  obtain ⟨hcount, -, -, hperm⟩ := hlines result hresult
  refine ⟨calls, files, text, result, hfiles, hresult, hcount, ?_⟩
  have hlength := hperm.length_eq
  rwa [List.length_map] at hlength

end Container

end ProtobufKafkaBench.KafkaScript

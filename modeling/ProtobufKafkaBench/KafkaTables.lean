import ProtobufKafkaBench.CsvReaders
import ProtobufKafkaBench.DecimalNumbers
import ProtobufKafkaBench.KafkaRun

/-!
The arguments of the Kafka producer benchmark and the table that a run of it leaves. A run that
ends has written one row for each repetition, and the rows together count the failed ones among all
messages of the run. Python reads the table back as it was written.
-/
namespace ProtobufKafkaBench.KafkaProducer

open ByteBuffers CommandLine CsvReaders CsvTables DecimalNumbers Transitions

section Arguments

/-- All that `parse_args` reads; the loop of `run` needs the part that it extends. -/
structure Arguments extends Config where
  warmupIterations : BitVec 64 := 10000
  broker : Bytes := ascii "kafka:29092"
  topic : Bytes := ascii "protobuf_encoding_kafka_benchmark"
  csvPath : Bytes := ascii "/work/results/kafka_producer_raw.csv"
  metadataPath : Bytes := ascii "/work/results/kafka_producer_metadata.txt"

/-- The comparisons of the argument with the flags, in the order they are made. -/
def flagTable : List (Bytes × Flag Arguments) :=
  [(ascii "--iterations", .takesValue fun config value => do
      return { config with iterations := ← stoull value }),
    (ascii "--repetitions", .takesValue fun config value => do
      return { config with repetitions := (← stoul value).setWidth 32 }),
    (ascii "--warmup-iterations", .takesValue fun config value => do
      return { config with warmupIterations := ← stoull value }),
    (ascii "--broker", .takesValue fun config value => .ok { config with broker := value }),
    (ascii "--topic", .takesValue fun config value => .ok { config with topic := value }),
    (ascii "--mode", .takesValue fun config value => .ok { config with mode := value }),
    (ascii "--acks", .takesValue fun config value => .ok { config with acks := value }),
    (ascii "--compression", .takesValue fun config value =>
      .ok { config with compression := value }),
    (ascii "--linger-ms", .takesValue fun config value => do
      return { config with lingerMs := (← stoul value).setWidth 32 }),
    (ascii "--batch-num-messages", .takesValue fun config value => do
      return { config with batchNumMessages := (← stoul value).setWidth 32 }),
    (ascii "--csv", .takesValue fun config value => .ok { config with csvPath := value }),
    (ascii "--metadata", .takesValue fun config value =>
      .ok { config with metadataPath := value })]

def flags (arg : Bytes) : Option (Flag Arguments) := flagTable.lookup arg

/-- The check after the loop over the arguments. -/
def checkArguments (config : Arguments) : Except CliError Arguments :=
  if config.iterations.toNat < 1000000 ∨ config.repetitions.toNat < 10 then
    .error (.runtimeError (ascii
      "iterations must be >= 1000000 and repetitions must be >= 10"))
  else .ok config

def parseArgs (args : List Bytes) : Except CliError Arguments := do
  checkArguments (← parseLoop flags {} args)

end Arguments

section Finished

variable {wire : Bytes} {library : Librdkafka} {config : Config}
  {reusable : ByteBuffer wire.length} {history : List (RunState wire × Traffic)}
  {state state' : RunState wire} {traffic : Traffic}

/-- The row of a repetition, with what does not depend on the configuration. -/
def rowOf (config : Config) (bytes : ℕ) (repetition : BitVec 32) (errors : BitVec 64) : Row where
  repetition := repetition
  iterations := config.iterations
  bytes := bytes
  deliveryErrors := errors
  mode := config.mode
  acks := config.acks
  compression := config.compression
  lingerMs := config.lingerMs
  batchNumMessages := config.batchNumMessages

/-- Rows are written while repetitions are left, all with the columns of the configuration. -/
structure Counted (config : Config) (state : RunState wire) : Prop where
  atTop : state.phase = .repetition → state.rows.length ≤ config.repetitions.toNat
  producing : state.phase = .produce → state.rows.length < config.repetitions.toNat
  complete : state.phase = .finished → state.rows.length = config.repetitions.toNat
  written : ∀ row ∈ state.rows,
    row = rowOf config wire.length row.repetition row.deliveryErrors

/-- Only the top of a repetition leads to the end. -/
theorem finished_step (hstep : RunStep library config state traffic state')
    (hfinished : state'.phase = .finished) :
    state.phase = .repetition ∧ ¬ state.repetition ≤ config.repetitions := by
  cases hstep with
  | finish hphase hrepetition => exact ⟨hphase, hrepetition⟩
  | produced attempts world ready hphase hi hcall =>
    change state.phase = Phase.finished at hfinished
    rw [hphase] at hfinished
    cases hfinished
  | reset hphase hrepetition => cases hfinished
  | notProduced attempts world hphase hi hcall => cases hfinished
  | threw attempts world error hphase hi hcall => cases hfinished
  | flushed ready hphase hi hflush => cases hfinished
  | flushFailed ready error hphase hi => cases hfinished

/-- A run ends only where the counter can pass the number of repetitions. -/
theorem repetitions_of_finished
    (run : Run (RunStep library config) (RunState.initial config reusable) history state)
    (hfinished : state.phase = .finished) : config.repetitions.toNat < 2 ^ 32 - 1 := by
  cases run with
  | nil =>
    unfold RunState.initial at hfinished
    dsimp only at hfinished
    split at hfinished <;> cases hfinished
  | @snoc earlier last _ _ run hstep =>
    have hpassed := (finished_step hstep hfinished).2
    have hcounter := last.repetition.isLt
    rw [BitVec.le_def] at hpassed
    omega

theorem counted_initial (config : Config) (reusable : ByteBuffer wire.length) :
    Counted config (RunState.initial config reusable) where
  atTop _ := Nat.zero_le _
  producing h := by
    unfold RunState.initial at h
    dsimp only at h
    split at h <;> cases h
  complete h := by
    unfold RunState.initial at h
    dsimp only at h
    split at h <;> cases h
  written _ h := absurd h List.not_mem_nil

/-- A step after which no further row is written. -/
theorem counted_stop (h : Counted config state) {world : World wire} {error : ProduceError} :
    Counted config { state with world, phase := .failed error } where
  atTop hphase := by cases hphase
  producing hphase := by cases hphase
  complete hphase := by cases hphase
  written := h.written

theorem counted_step (hleft : config.repetitions.toNat < 2 ^ 32 - 1)
    (haccounts : RunAccounts library config history state) (h : Counted config state)
    (hstep : RunStep library config state traffic state') : Counted config state' := by
  have hcounter : state.repetition.toNat = (state.rows.length + 1) % 2 ^ 32 := by
    rw [haccounts.repetition_eq, BitVec.toNat_ofNat]
  cases hstep with
  | reset hphase hrepetition =>
    have htop := h.atTop hphase
    rw [BitVec.le_def] at hrepetition
    refine { atTop := fun hphase => by cases hphase
             producing := fun _ => ?_
             complete := fun hphase => by cases hphase
             written := h.written }
    change state.rows.length < config.repetitions.toNat
    omega
  | finish hphase hrepetition =>
    have htop := h.atTop hphase
    rw [BitVec.le_def] at hrepetition
    refine { atTop := fun hphase => by cases hphase
             producing := fun hphase => by cases hphase
             complete := fun _ => ?_
             written := h.written }
    change state.rows.length = config.repetitions.toNat
    omega
  | produced attempts world ready hphase hi hcall =>
    exact { atTop := h.atTop, producing := h.producing, complete := h.complete,
            written := h.written }
  | notProduced attempts world hphase hi hcall => exact counted_stop h
  | threw attempts world error hphase hi hcall => exact counted_stop h
  | flushed ready hphase hi hflush =>
    have hproducing := h.producing hphase
    refine { atTop := fun _ => ?_
             producing := fun hphase => by cases hphase
             complete := fun hphase => by cases hphase
             written := ?_ }
    · rw [List.length_append, List.length_singleton]
      omega
    · intro written hwritten
      rcases List.mem_append.mp hwritten with hold | hnew
      · exact h.written written hold
      · rw [List.mem_singleton.mp hnew]
        rfl
  | flushFailed ready error hphase hi => exact counted_stop h

theorem counted_run (hleft : config.repetitions.toNat < 2 ^ 32 - 1)
    (run : Run (RunStep library config) (RunState.initial config reusable) history state) :
    Counted config state := by
  refine run.invariant (fun _ s => Counted config s) (counted_initial config reusable) ?_
  intro earlier s traffic t run hcounted hstep
  exact counted_step hleft (runAccounts_run run) hcounted hstep

/-- The row of repetition `j + 1` of a run: it counts the failures among the messages
`j * iterations` to `(j + 1) * iterations`. -/
def completedRow (library : Librdkafka) (config : Config) (bytes j : ℕ) : Row :=
  rowOf config bytes (BitVec.ofNat 32 (j + 1)) (BitVec.ofNat 64
    ((List.range' (j * config.iterations.toNat) config.iterations.toNat).countP library.failed))

/-- What a run has written when it ends. -/
theorem finished_rows
    (run : Run (RunStep library config) (RunState.initial config reusable) history state)
    (hfinished : state.phase = .finished) :
    state.rows =
      (List.range config.repetitions.toNat).map (completedRow library config wire.length) := by
  have hcounted := counted_run (repetitions_of_finished run hfinished) run
  have haccounts := runAccounts_run run
  apply List.ext_getElem
  · rw [List.length_map, List.length_range]
    exact hcounted.complete hfinished
  · intro j hj hj'
    have hrow := haccounts.past j _ (List.getElem?_eq_getElem hj)
    have herrors : state.rows[j].deliveryErrors = BitVec.ofNat 64
        ((List.range' (j * config.iterations.toNat) config.iterations.toNat).countP
          library.failed) := by
      rw [← hrow.accepted_eq, ← hrow.errors_eq, BitVec.ofNat_toNat, BitVec.setWidth_eq]
    rw [List.getElem_map, List.getElem_range, completedRow, ← herrors, ← hrow.repetition_eq]
    exact hcounted.written _ (List.getElem_mem hj)

/-- Only two modes get past the check at the beginning. -/
theorem mode_of_finished
    (run : Run (RunStep library config) (RunState.initial config reusable) history state)
    (hfinished : state.phase = .finished) :
    config.mode = ascii "copy" ∨ config.mode = ascii "owned" := by
  by_contra hmode
  rw [not_or] at hmode
  cases run with
  | nil =>
    unfold RunState.initial at hfinished
    rw [if_pos hmode] at hfinished
    cases hfinished
  | @snoc earlier last _ _ run hstep =>
    have hrefused : ∃ error, last.phase = .failed error := by
      refine run.invariant (fun _ s => ∃ error, s.phase = .failed error) ?_ ?_
      · refine ⟨.runtimeError (ascii "mode must be copy or owned"), ?_⟩
        exact if_pos hmode
      · intro _ s traffic t _ hfailed hstep
        obtain ⟨error, hfailed⟩ := hfailed
        cases hstep with
        | reset hphase | finish hphase | produced _ _ _ hphase | notProduced _ _ hphase
        | threw _ _ _ hphase | flushed _ hphase | flushFailed _ _ hphase =>
          rw [hphase] at hfailed
          cases hfailed
    obtain ⟨error, hfailed⟩ := hrefused
    rw [(finished_step hstep hfinished).1] at hfailed
    cases hfailed

/-- The windows of the repetitions are all messages of the run. -/
theorem sum_windows (failed : ℕ → Bool) (size count : ℕ) :
    ((List.range count).map fun j => (List.range' (j * size) size).countP failed).sum =
      (List.range (count * size)).countP failed := by
  induction count with
  | zero => rw [Nat.zero_mul]; rfl
  | succ count ih =>
    have hsplit : List.range ((count + 1) * size) =
        List.range (count * size) ++ List.range' (count * size) size := by
      have happend := @List.range'_append 0 (count * size) size 1
      rw [Nat.one_mul, Nat.zero_add, ← Nat.succ_mul] at happend
      rw [List.range_eq_range', List.range_eq_range', happend]
    rw [List.range_succ, List.map_append, List.sum_append, ih, List.map_singleton,
      List.sum_singleton, hsplit, List.countP_append]

end Finished

section Tables

/-- The measured times of a repetition, as the stream prints them. -/
structure Times where
  enqueue : Bytes
  flush : Bytes
  total : Bytes
  perEncode : Bytes
  perSecond : Bytes

/-- The times are printed as numbers. -/
structure Times.Legible (times : Times) : Prop where
  plain : ∀ field ∈ [times.enqueue, times.flush, times.total, times.perEncode, times.perSecond],
    PlainField field
  enqueue : (pyFloat times.enqueue).isSome
  total : (pyFloat times.total).isSome

def header : List Bytes :=
  ["kind", "library", "codegen", "api", "test_case", "repetition", "iterations", "bytes",
    "enqueue_elapsed_ns", "flush_elapsed_ns", "end_to_end_ns", "ns_per_encode",
    "encodes_per_second", "delivery_errors", "mode", "acks", "compression", "linger_ms",
    "batch_num_messages"].map ascii

def headerText : Bytes :=
  ascii "kind,library,codegen,api,test_case,repetition,iterations,bytes,enqueue_elapsed_ns," ++
    ascii "flush_elapsed_ns,end_to_end_ns,ns_per_encode,encodes_per_second,delivery_errors," ++
    ascii "mode,acks,compression,linger_ms,batch_num_messages\n"

/-- The line that `run` writes for a repetition. -/
def rowText (times : Times) (row : Row) : Bytes :=
  ascii "kafka,confluent_librdkafka,google_speed,produce," ++ ascii "one_string_ten_int64" ++
    ascii "," ++ decimalDigits row.repetition.toNat ++ ascii "," ++
    decimalDigits row.iterations.toNat ++ ascii "," ++ decimalDigits row.bytes ++ ascii "," ++
    times.enqueue ++ ascii "," ++ times.flush ++ ascii "," ++ times.total ++ ascii "," ++
    times.perEncode ++ ascii "," ++ times.perSecond ++ ascii "," ++
    decimalDigits row.deliveryErrors.toNat ++ ascii "," ++ row.mode ++ ascii "," ++ row.acks ++
    ascii "," ++ row.compression ++ ascii "," ++ decimalDigits row.lingerMs.toNat ++ ascii "," ++
    decimalDigits row.batchNumMessages.toNat ++ ascii "\n"

/-- The file of a run with these rows, for the times of each repetition. -/
def csvText (times : BitVec 32 → Times) (rows : List Row) : Bytes :=
  headerText ++ rows.flatMap fun row => rowText (times row.repetition) row

/-- The columns of a row. -/
def record (times : Times) (row : Row) : List Bytes :=
  [ascii "kafka", ascii "confluent_librdkafka", ascii "google_speed", ascii "produce",
    ascii "one_string_ten_int64", decimalDigits row.repetition.toNat,
    decimalDigits row.iterations.toNat, decimalDigits row.bytes, times.enqueue, times.flush,
    times.total, times.perEncode, times.perSecond, decimalDigits row.deliveryErrors.toNat,
    row.mode, row.acks, row.compression, decimalDigits row.lingerMs.toNat,
    decimalDigits row.batchNumMessages.toNat]

theorem rowText_eq (times : Times) (row : Row) :
    rowText times row = recordText (record times row) := by
  have hfixed : ascii "kafka,confluent_librdkafka,google_speed,produce," =
      ascii "kafka" ++ [44] ++ ascii "confluent_librdkafka" ++ [44] ++ ascii "google_speed" ++
        [44] ++ ascii "produce" ++ [44] := by decide +kernel
  have hcomma : ascii "," = [44] := rfl
  have hnewline : ascii "\n" = [10] := rfl
  unfold rowText recordText record
  simp only [hfixed, hcomma, hnewline, List.intercalate_cons_cons, List.intercalate_singleton,
    List.append_assoc]

theorem csvText_eq (times : BitVec 32 → Times) (rows : List Row) :
    csvText times rows =
      (header :: rows.map fun row => record (times row.repetition) row).flatMap recordText := by
  have hheader : headerText = recordText header := by decide +kernel
  rw [csvText, hheader, List.flatMap_cons, List.flatMap_map]
  exact congrArg (recordText header ++ rows.flatMap ·)
    (funext fun row => rowText_eq (times row.repetition) row)

theorem header_plain : PlainRecord header :=
  plainRecord_of_all (by decide) (by decide +kernel)

/-- The texts of a configuration can stand in a table unquoted. -/
structure PlainConfig (config : Config) : Prop where
  mode : PlainField config.mode
  acks : PlainField config.acks
  compression : PlainField config.compression

theorem record_plain {config : Config} (hconfig : PlainConfig config) {times : Times}
    (htimes : times.Legible) (bytes : ℕ) (repetition : BitVec 32) (errors : BitVec 64) :
    PlainRecord (record times (rowOf config bytes repetition errors)) := by
  have hplain := htimes.plain
  simp only [List.forall_mem_cons] at hplain
  obtain ⟨henqueue, hflush, htotal, hencode, hsecond, -⟩ := hplain
  have hcount := plainField_decimalDigits
  refine ⟨List.cons_ne_nil _ _, by simp [record], ?_⟩
  simp only [record, List.forall_mem_cons]
  exact ⟨plainField_of_all (by decide), plainField_of_all (by decide),
    plainField_of_all (by decide), plainField_of_all (by decide), plainField_of_all (by decide),
    hcount _, hcount _, hcount _, henqueue, hflush, htotal, hencode, hsecond, hcount _,
    hconfig.mode, hconfig.acks, hconfig.compression, hcount _, hcount _,
    fun _ h => absurd h List.not_mem_nil⟩

end Tables

end ProtobufKafkaBench.KafkaProducer

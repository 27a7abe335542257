import ProtobufKafkaBench.Directories
import ProtobufKafkaBench.MergeKafkaResults

/-!
The container script that runs the producer benchmark over a matrix of
configurations. In append mode the first number is one more than the count of the
tables that are there, and each run takes the next one. An earlier table is safe
exactly if its number is not among them.
-/
namespace ProtobufKafkaBench.KafkaScript

open ByteBuffers CsvTables Directories KafkaReports

section Script

structure Configuration where
  mode : Bytes
  acks : Bytes
  compression : Bytes
  linger : Bytes
  batch : Bytes
  deriving DecidableEq

/-- What the arithmetic of the shell makes of a decimal number: it wraps at 64 bits. -/
def bashValue (z : ℤ) : ℤ := (BitVec.ofInt 64 z).toInt

/-- The variables of the environment that the script reads. The three numbers are decimal texts
of any length, which the shell passes on as they are and wraps where it compares them. -/
structure Settings where
  iterations : ℤ := 1000000
  repetitions : ℤ := 10
  warmupIterations : Bytes := ascii "10000"
  broker : Bytes := ascii "kafka:29092"
  topicPrefix : Bytes := ascii "protobuf_encoding_kafka"
  modes : List Bytes := ["copy", "owned"].map ascii
  acks : List Bytes := ["0", "1", "all"].map ascii
  compressions : List Bytes := ["none", "lz4", "zstd"].map ascii
  lingers : List Bytes := ["0", "5"].map ascii
  batches : List Bytes := ["1", "100"].map ascii
  maxRuns : ℤ := 0
  appendResults : Bool := false

/-- The five nested loops, the last one innermost. -/
def configurations (settings : Settings) : List Configuration :=
  settings.modes.flatMap fun mode =>
    settings.acks.flatMap fun acks =>
      settings.compressions.flatMap fun compression =>
        settings.lingers.flatMap fun linger =>
          settings.batches.map fun batch => { mode, acks, compression, linger, batch }

/-- One call of the benchmark, with the arguments that depend on the run. -/
structure Run where
  index : ℕ
  configuration : Configuration
  topic : Bytes
  output : Bytes
  metadata : Bytes
  deriving DecidableEq

def outputName (index : ℕ) : Bytes :=
  ascii "kafka_producer_" ++ decimalDigits index ++ ascii ".csv"

def metadataName (index : ℕ) : Bytes :=
  ascii "kafka_producer_" ++ decimalDigits index ++ ascii ".metadata.txt"

def topicName (settings : Settings) (c : Configuration) (index : ℕ) : Bytes :=
  intercalate (ascii "_") [settings.topicPrefix, decimalDigits index, c.mode, c.acks,
    c.compression, c.linger, c.batch]

def runOf (settings : Settings) (c : Configuration) (index : ℕ) : Run where
  index := index
  configuration := c
  topic := topicName settings c index
  output := outputName index
  metadata := metadataName index

/-- What a call leaves in the two files, where it opened them, and whether it succeeded. -/
structure Outcome where
  csv : Option Bytes
  metadata : Option Bytes
  succeeded : Bool

abbrev Results := Directory Bytes Bytes

def opened (d : Results) (name : Bytes) (content : Option Bytes) : Results :=
  match content with
  | none => d
  | some content => d.write name content

def record (d : Results) (run : Run) (outcome : Outcome) : Results :=
  opened (opened d run.metadata outcome.metadata) run.output outcome.csv

structure Loop where
  runs : List Run
  runIndex : ℕ
  directory : Results
  finished : Bool

variable (settings : Settings) (benchmark : Run → Outcome)

/-- The loop body over the configurations. A failing call ends the script, and the largest
number of runs breaks off all loops. -/
def runLoop : List Configuration → ℕ → Results → Loop
  | [], runIndex, d => { runs := [], runIndex, directory := d, finished := true }
  | c :: rest, runIndex, d =>
    let run := runOf settings c (runIndex + 1)
    let outcome := benchmark run
    let d := record d run outcome
    if outcome.succeeded then
      if 0 < bashValue settings.maxRuns ∧ bashValue settings.maxRuns ≤ (runIndex + 1 : ℕ) then
        { runs := [run], runIndex := runIndex + 1, directory := d, finished := true }
      else
        let more := runLoop rest (runIndex + 1) d
        { more with runs := run :: more.runs }
    else { runs := [run], runIndex := runIndex + 1, directory := d, finished := false }

/-- `find ... -name 'kafka_producer_*.csv' | wc -l`, which counts newlines. -/
def tableCount (d : Results) : ℕ :=
  ((d.names.filter isShardName).map fun name => 1 + name.count 10).sum

def isMetadataName (name : Bytes) : Bool :=
  (ascii "kafka_producer_").isPrefixOf name &&
    (ascii ".metadata.txt").isSuffixOf (name.drop (ascii "kafka_producer_").length)

def summaryName : Bytes := ascii "kafka_producer_metadata.txt"

def reportName : Bytes := ascii "KAFKA_PRODUCER_REPORT.md"

def removed (d : Results) : Results :=
  d.removeAll fun name => isShardName name || isMetadataName name || name = summaryName

def summary (runIndex : ℕ) : Bytes :=
  ascii "runs=" ++ decimalDigits runIndex ++ ascii "\niterations=" ++
    decimalText settings.iterations ++ ascii "\nrepetitions=" ++
    decimalText settings.repetitions ++ ascii "\n"

/-- The runs that were made and the directory at the end of the script. -/
structure Outputs where
  runs : List Run
  directory : Results

/-- The script after its build, with the report as a function of the directory. -/
def container (report : Results → Option Bytes) (d : Results) : Outputs :=
  if bashValue settings.iterations < 1000000 ∨ bashValue settings.repetitions < 10 then
    { runs := [], directory := d }
  else
    let d := if settings.appendResults then d else removed d
    let start := if settings.appendResults then tableCount d else 0
    let loop := runLoop settings benchmark (configurations settings) start d
    if loop.finished then
      let d := loop.directory.write summaryName (summary settings loop.runIndex)
      { runs := loop.runs, directory := opened d reportName (report d) }
    else { runs := loop.runs, directory := loop.directory }

end Script

section Names

theorem last_of_isShardName {name : Bytes} (h : isShardName name = true) :
    name.getLast? = some 118 := by
  unfold isShardName at h
  rw [Bool.and_eq_true] at h
  obtain ⟨front, hfront⟩ := List.isSuffixOf_iff_suffix.mp h.2
  rw [← List.take_append_drop (ascii "kafka_producer_").length name, ← hfront]
  have hsplit : ascii ".csv" = ascii ".cs" ++ [118] := rfl
  rw [hsplit, ← List.append_assoc, ← List.append_assoc]
  exact List.getLast?_concat

theorem metadataName_not_table (index : ℕ) : isShardName (metadataName index) = false := by
  rw [Bool.eq_false_iff]
  intro h
  have hlast := last_of_isShardName h
  have hsplit : ascii ".metadata.txt" = ascii ".metadata.tx" ++ [116] := rfl
  rw [metadataName, hsplit, ← List.append_assoc, List.getLast?_concat] at hlast
  cases hlast

theorem outputName_injective {i j : ℕ} (h : outputName i = outputName j) : i = j := by
  unfold outputName at h
  exact decimalDigits_injective (List.append_cancel_left (List.append_cancel_right h))

end Names

section Loop

variable (settings : Settings) (benchmark : Run → Outcome)

/-- How many configurations the largest number of runs leaves, but at least the first. -/
def cutoff (maxRuns : ℤ) (runIndex count : ℕ) : ℕ :=
  if 0 < maxRuns then min count (max 1 (maxRuns.toNat - runIndex)) else count

/-- How many calls succeed one after the other. -/
def successes (entries : List (Configuration × ℕ)) : ℕ :=
  entries.findIdx fun entry => !(benchmark (runOf settings entry.1 entry.2)).succeeded

/-- How many configurations are run: up to the first failure, and within the cutoff. -/
def attempted (cs : List Configuration) (runIndex : ℕ) : ℕ :=
  min (cutoff (bashValue settings.maxRuns) runIndex cs.length)
    (successes settings benchmark (cs.zipIdx (runIndex + 1)) + 1)

theorem cutoff_pos (maxRuns : ℤ) (runIndex count : ℕ) :
    0 < cutoff maxRuns runIndex (count + 1) := by
  unfold cutoff
  by_cases hpos : 0 < maxRuns
  · rw [if_pos hpos]
    omega
  · rw [if_neg hpos]
    omega

theorem cutoff_reached {maxRuns : ℤ} {runIndex : ℕ} (count : ℕ)
    (h : 0 < maxRuns ∧ maxRuns ≤ (runIndex + 1 : ℕ)) : cutoff maxRuns runIndex (count + 1) = 1 := by
  unfold cutoff
  rw [if_pos h.1]
  omega

theorem cutoff_succ {maxRuns : ℤ} {runIndex : ℕ} (count : ℕ)
    (h : ¬ (0 < maxRuns ∧ maxRuns ≤ (runIndex + 1 : ℕ))) :
    cutoff maxRuns runIndex (count + 1) = cutoff maxRuns (runIndex + 1) count + 1 := by
  unfold cutoff
  by_cases hpos : 0 < maxRuns
  · rw [if_pos hpos, if_pos hpos]
    omega
  · rw [if_neg hpos, if_neg hpos]

theorem attempted_last {c : Configuration} {rest : List Configuration} {runIndex : ℕ}
    (h : (benchmark (runOf settings c (runIndex + 1))).succeeded = false ∨
      0 < bashValue settings.maxRuns ∧ bashValue settings.maxRuns ≤ (runIndex + 1 : ℕ)) :
    attempted settings benchmark (c :: rest) runIndex = 1 := by
  unfold attempted
  rw [List.length_cons]
  rcases h with hfailed | hreached
  · have hnone : successes settings benchmark ((c :: rest).zipIdx (runIndex + 1)) = 0 := by
      rw [successes, List.zipIdx_cons, List.findIdx_cons, hfailed]
      rfl
    have hpos := cutoff_pos (bashValue settings.maxRuns) runIndex rest.length
    rw [hnone]
    omega
  · rw [cutoff_reached rest.length hreached]
    omega

theorem attempted_succ {c : Configuration} {rest : List Configuration} {runIndex : ℕ}
    (hsucceeded : (benchmark (runOf settings c (runIndex + 1))).succeeded = true)
    (hmore : ¬ (0 < bashValue settings.maxRuns ∧ bashValue settings.maxRuns ≤ (runIndex + 1 : ℕ))) :
    attempted settings benchmark (c :: rest) runIndex =
      attempted settings benchmark rest (runIndex + 1) + 1 := by
  have hcount : successes settings benchmark ((c :: rest).zipIdx (runIndex + 1)) =
      successes settings benchmark (rest.zipIdx (runIndex + 1 + 1)) + 1 := by
    rw [successes, List.zipIdx_cons, List.findIdx_cons, hsucceeded]
    rfl
  unfold attempted
  rw [List.length_cons, cutoff_succ rest.length hmore, hcount]
  omega

/-- The runs are numbered on from the start, as many as are attempted. -/
theorem runLoop_indices (cs : List Configuration) (runIndex : ℕ) (d : Results) :
    (runLoop settings benchmark cs runIndex d).runs.map Run.index =
        List.range' (runIndex + 1) (attempted settings benchmark cs runIndex) ∧
      ∀ run ∈ (runLoop settings benchmark cs runIndex d).runs,
        run.output = outputName run.index ∧ run.metadata = metadataName run.index := by
  induction cs generalizing runIndex d with
  | nil =>
    have hzero : attempted settings benchmark [] runIndex = 0 := by
      unfold attempted cutoff
      simp
    rw [hzero]
    exact ⟨rfl, fun _ hmem => absurd hmem List.not_mem_nil⟩
  | cons c rest ih =>
    unfold runLoop
    by_cases hsucceeded : (benchmark (runOf settings c (runIndex + 1))).succeeded = true
    · by_cases hreached : 0 < bashValue settings.maxRuns ∧
          bashValue settings.maxRuns ≤ (runIndex + 1 : ℕ)
      · rw [if_pos hsucceeded, if_pos hreached,
          attempted_last settings benchmark (Or.inr hreached)]
        exact ⟨rfl, by simp [runOf]⟩
      · rw [if_pos hsucceeded, if_neg hreached,
          attempted_succ settings benchmark hsucceeded hreached]
        obtain ⟨hindices, hnames⟩ := ih (runIndex + 1)
          (record d (runOf settings c (runIndex + 1))
            (benchmark (runOf settings c (runIndex + 1))))
        simp only [List.map_cons, hindices, List.forall_mem_cons]
        exact ⟨rfl, ⟨rfl, rfl⟩, hnames⟩
    · rw [if_neg hsucceeded, attempted_last settings benchmark
        (Or.inl (Bool.eq_false_iff.mpr hsucceeded))]
      exact ⟨rfl, by simp [runOf]⟩

theorem read_opened {d : Results} {name other : Bytes} {content : Option Bytes}
    (h : content.isSome = true → other ≠ name) :
    (opened d name content).read other = d.read other := by
  cases content with
  | none => rfl
  | some content => exact Directory.read_write_other (h rfl)

/-- A file that no run has for its metadata, or opens as its output, is left as it is. -/
theorem runLoop_read {cs : List Configuration} {runIndex : ℕ} {d : Results} {name : Bytes}
    (h : ∀ run ∈ (runLoop settings benchmark cs runIndex d).runs,
      ((benchmark run).csv.isSome = true → name ≠ run.output) ∧ name ≠ run.metadata) :
    (runLoop settings benchmark cs runIndex d).directory.read name = d.read name := by
  induction cs generalizing runIndex d with
  | nil => rfl
  | cons c rest ih =>
    have hrecord : ∀ run, ((benchmark run).csv.isSome = true → name ≠ run.output) ∧
        name ≠ run.metadata → (record d run (benchmark run)).read name = d.read name := by
      intro run hrun
      rw [record, read_opened hrun.1, read_opened fun _ => hrun.2]
    unfold runLoop at h ⊢
    by_cases hsucceeded : (benchmark (runOf settings c (runIndex + 1))).succeeded = true
    · by_cases hreached :
          0 < bashValue settings.maxRuns ∧ bashValue settings.maxRuns ≤ (runIndex + 1 : ℕ)
      · rw [if_pos hsucceeded, if_pos hreached] at h ⊢
        exact hrecord _ (h _ List.mem_cons_self)
      · rw [if_pos hsucceeded, if_neg hreached] at h ⊢
        rw [← hrecord _ (h _ List.mem_cons_self)]
        exact ih fun run hrun => h run (List.mem_cons_of_mem _ hrun)
    · rw [if_neg hsucceeded] at h ⊢
      exact hrecord _ (h _ List.mem_cons_self)

/-- The run of number `n`, where the first one follows `start`. -/
def runAt (settings : Settings) (start n : ℕ) : Option Run :=
  (configurations settings)[n - (start + 1)]?.map fun c => runOf settings c n

/-- Each run is that of its number. -/
theorem runLoop_getElem {cs : List Configuration} {runIndex : ℕ} {d : Results} {run : Run}
    (h : run ∈ (runLoop settings benchmark cs runIndex d).runs) :
    runIndex + 1 ≤ run.index ∧
      cs[run.index - (runIndex + 1)]?.map (fun c => runOf settings c run.index) = some run := by
  induction cs generalizing runIndex d with
  | nil => cases h
  | cons c rest ih =>
    have hfirst : ∀ r : Run, r = runOf settings c (runIndex + 1) → runIndex + 1 ≤ r.index ∧
        (c :: rest)[r.index - (runIndex + 1)]?.map (fun c => runOf settings c r.index) =
          some r := by
      rintro r rfl
      simp [runOf]
    unfold runLoop at h
    by_cases hsucceeded : (benchmark (runOf settings c (runIndex + 1))).succeeded = true
    · by_cases hreached :
          0 < bashValue settings.maxRuns ∧ bashValue settings.maxRuns ≤ (runIndex + 1 : ℕ)
      · rw [if_pos hsucceeded, if_pos hreached] at h
        exact hfirst run (List.mem_singleton.mp h)
      · rw [if_pos hsucceeded, if_neg hreached] at h
        rcases List.mem_cons.mp h with hrun | hlater
        · exact hfirst run hrun
        · obtain ⟨hlow, hget⟩ := ih hlater
          refine ⟨by omega, ?_⟩
          have hindex : run.index - (runIndex + 1) = run.index - (runIndex + 1 + 1) + 1 := by omega
          rw [hindex, List.getElem?_cons_succ]
          exact hget
    · rw [if_neg hsucceeded] at h
      exact hfirst run (List.mem_singleton.mp h)

end Loop

section AppendMode

variable {settings : Settings} (benchmark : Run → Outcome) (report : Results → Option Bytes)

/-- The number of configurations that the script runs when it appends. -/
def runCount (settings : Settings) (benchmark : Run → Outcome) (d : Results) : ℕ :=
  if bashValue settings.iterations < 1000000 ∨ bashValue settings.repetitions < 10 then 0
  else attempted settings benchmark (configurations settings) (tableCount d)

theorem container_runs (happend : settings.appendResults = true) (d : Results) :
    ((container settings benchmark report d).runs.map Run.index =
        List.range' (tableCount d + 1) (runCount settings benchmark d)) ∧
      ∀ run ∈ (container settings benchmark report d).runs,
        run.output = outputName run.index ∧ run.metadata = metadataName run.index ∧
          runAt settings (tableCount d) run.index = some run := by
  unfold container runCount
  by_cases hsize : bashValue settings.iterations < 1000000 ∨ bashValue settings.repetitions < 10
  · rw [if_pos hsize, if_pos hsize]
    exact ⟨rfl, fun _ hmem => absurd hmem List.not_mem_nil⟩
  · rw [if_neg hsize, if_neg hsize, happend]
    simp only [if_true]
    obtain ⟨hindices, hnames⟩ :=
      runLoop_indices settings benchmark (configurations settings) (tableCount d) d
    have hloop : ∀ run ∈ (runLoop settings benchmark (configurations settings)
        (tableCount d) d).runs, run.output = outputName run.index ∧
          run.metadata = metadataName run.index ∧
          runAt settings (tableCount d) run.index = some run := by
      intro run hrun
      obtain ⟨houtput, hmetadata⟩ := hnames run hrun
      exact ⟨houtput, hmetadata, (runLoop_getElem settings benchmark hrun).2⟩
    by_cases hfinished :
        (runLoop settings benchmark (configurations settings) (tableCount d) d).finished = true
    · rw [if_pos hfinished]
      exact ⟨hindices, hloop⟩
    · rw [if_neg hfinished]
      exact ⟨hindices, hloop⟩

/-- A table that no run opens as its output is left as it is. -/
theorem container_read (happend : settings.appendResults = true) {d : Results} {name : Bytes}
    (htable : isShardName name = true)
    (h : ∀ run ∈ (container settings benchmark report d).runs,
      (benchmark run).csv.isSome = true → name ≠ run.output) :
    (container settings benchmark report d).directory.read name = d.read name := by
  have hnames := (container_runs benchmark report happend d).2
  have hmetadata : ∀ run ∈ (container settings benchmark report d).runs,
      name ≠ run.metadata := by
    intro run hrun heq
    rw [heq, (hnames run hrun).2.1, metadataName_not_table] at htable
    cases htable
  have hsummary : name ≠ summaryName := by
    intro heq
    rw [heq] at htable
    exact absurd htable (by decide)
  have hreport : name ≠ reportName := by
    intro heq
    rw [heq] at htable
    exact absurd htable (by decide)
  unfold container at h hmetadata ⊢
  by_cases hsize : bashValue settings.iterations < 1000000 ∨ bashValue settings.repetitions < 10
  · rw [if_pos hsize]
  · rw [if_neg hsize, happend] at h hmetadata ⊢
    simp only [if_true] at h hmetadata ⊢
    by_cases hfinished :
        (runLoop settings benchmark (configurations settings) (tableCount d) d).finished = true
    · rw [if_pos hfinished] at h hmetadata ⊢
      rw [read_opened fun _ => hreport, Directory.read_write_other hsummary]
      exact runLoop_read settings benchmark fun run hrun => ⟨h run hrun, hmetadata run hrun⟩
    · rw [if_neg hfinished] at h hmetadata ⊢
      exact runLoop_read settings benchmark fun run hrun => ⟨h run hrun, hmetadata run hrun⟩

/-- Every run that opens its table has a new name for it, no two runs have the same name, and
the earlier tables are unchanged. -/
structure Preserves (benchmark : Run → Outcome) (before : Results) (outputs : Outputs) :
    Prop where
  fresh : ∀ run ∈ outputs.runs, (benchmark run).csv.isSome = true → run.output ∉ before.names
  distinct : (outputs.runs.map Run.output).Nodup
  unchanged : ∀ name ∈ before.names, isShardName name = true →
    outputs.directory.read name = before.read name

/-- The call of number `n` opens its table. -/
def Opens (settings : Settings) (benchmark : Run → Outcome) (start n : ℕ) : Prop :=
  ∃ run, runAt settings start n = some run ∧ (benchmark run).csv.isSome = true

/-- Append mode preserves the earlier tables exactly if none of them has one of the
numbers that follow the count of the tables, up to that of the last run, where the call of
this number opens its table. -/
theorem append_preserves_iff (happend : settings.appendResults = true) (d : Results) :
    Preserves benchmark d (container settings benchmark report d) ↔
      ∀ n, tableCount d < n → n ≤ tableCount d + runCount settings benchmark d →
        Opens settings benchmark (tableCount d) n → outputName n ∉ d.names := by
  obtain ⟨hindices, hruns⟩ := container_runs benchmark report happend d
  have hnumbered : ∀ n, (∃ run ∈ (container settings benchmark report d).runs, run.index = n) ↔
      tableCount d < n ∧ n ≤ tableCount d + runCount settings benchmark d := by
    intro n
    rw [← List.mem_map, hindices, List.mem_range'_1]
    omega
  constructor
  · intro h n hlow hhigh hopens
    obtain ⟨run, hrun, rfl⟩ := (hnumbered n).mpr ⟨hlow, hhigh⟩
    obtain ⟨houtput, -, hat⟩ := hruns run hrun
    obtain ⟨called, hcalled, hopened⟩ := hopens
    obtain rfl := Option.some.inj (hat.symm.trans hcalled)
    rw [← houtput]
    exact h.fresh run hrun hopened
  · intro h
    have hfresh : ∀ run ∈ (container settings benchmark report d).runs,
        (benchmark run).csv.isSome = true → run.output ∉ d.names := by
      intro run hrun hopened
      obtain ⟨houtput, -, hat⟩ := hruns run hrun
      obtain ⟨hlow, hhigh⟩ := (hnumbered run.index).mp ⟨run, hrun, rfl⟩
      rw [houtput]
      exact h run.index hlow hhigh ⟨run, hat, hopened⟩
    refine { fresh := hfresh, distinct := ?_, unchanged := ?_ }
    · have houtputs : (container settings benchmark report d).runs.map Run.output =
          ((container settings benchmark report d).runs.map Run.index).map outputName := by
        rw [List.map_map]
        exact List.map_congr_left fun run hrun => (hruns run hrun).1
      rw [houtputs, hindices]
      exact (List.nodup_range' 1).map fun i j => outputName_injective
    · intro name hname htable
      apply container_read benchmark report happend htable
      intro run hrun hopened heq
      exact hfresh run hrun hopened (heq ▸ hname)

/-- A call that writes both files. -/
def written (run : Run) : Outcome where
  csv := some run.topic
  metadata := some run.configuration.mode
  succeeded := true

/-- One configuration, in append mode. -/
def oneConfiguration : Settings where
  modes := ["owned"].map ascii
  acks := ["all"].map ascii
  compressions := ["none"].map ascii
  lingers := ["0"].map ascii
  batches := ["1"].map ascii
  appendResults := true

def tables (indices : List ℕ) (h : indices.Nodup) : Results where
  entries := indices.map fun index => (outputName index, ascii "earlier")
  nodup := by
    rw [List.map_map]
    exact h.map fun i j => outputName_injective

/-- Tables 1 and 2 are there, and the run gets number 3. -/
theorem append_preserves_iff_two_tables :
    Preserves written (tables [1, 2] (by decide))
      (container oneConfiguration written (fun _ => none) (tables [1, 2] (by decide))) := by
  refine (append_preserves_iff written (fun _ => none) rfl (tables [1, 2] (by decide))).mpr ?_
  have hcount : tableCount (tables [1, 2] (by decide)) = 2 := by decide +kernel
  have hruns : runCount oneConfiguration written (tables [1, 2] (by decide)) = 1 := by
    decide +kernel
  intro n hlow hhigh _
  rw [hcount] at hlow
  rw [hcount, hruns] at hhigh
  obtain rfl : n = 3 := by omega
  decide +kernel

/-- Table 1 was deleted, table 2 is there: the next run takes its name. -/
theorem second_table_overwritten :
    ¬ Preserves written (tables [2] (by decide))
      (container oneConfiguration written (fun _ => none) (tables [2] (by decide))) := by
  have hrun : ∃ run ∈ (container oneConfiguration written (fun _ => none)
      (tables [2] (by decide))).runs, run.output ∈ (tables [2] (by decide)).names := by
    decide +kernel
  intro h
  obtain ⟨run, hrun, hmem⟩ := hrun
  exact h.fresh run hrun rfl hmem

end AppendMode

end ProtobufKafkaBench.KafkaScript

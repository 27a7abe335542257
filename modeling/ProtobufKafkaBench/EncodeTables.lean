import ProtobufKafkaBench.CsvReaders
import ProtobufKafkaBench.MeasureLoops

/-!
The encoding benchmark as a whole, and its table. `main` measures 36 configurations one after the
other, so that the table is made of blocks of one configuration each, with the repetitions of a
block in order.
-/
namespace ProtobufKafkaBench.EncodeBenchmark

open ByteBuffers CountedLoops CsvReaders CsvTables JsonObjects

section Plan

/-- What tells one call of `run_measure` from another. -/
structure Entry where
  kind : Bytes
  library : Bytes
  codegen : Bytes
  api : Bytes
  testCase : Case

def cases : List Case := [.int64, .decimal, .wide]

def runGoogleVariant (codegen : String) (testCase : Case) : List Entry :=
  ["SerializeToString", "SerializeToArray_preallocated"].map fun api =>
    { kind := ascii "protobuf", library := ascii "google_protobuf", codegen := ascii codegen
      api := ascii api, testCase }

def runProtobufC (testCase : Case) : Entry where
  kind := ascii "protobuf"
  library := ascii "protobuf_c"
  codegen := ascii "c_generated"
  api := ascii "pack_preallocated"
  testCase := testCase

/-- `run_rapidjson`, `run_nlohmann`, `run_jsoncpp`, `run_boost_json` and `run_yyjson`. -/
def runJson (testCase : Case) : List Entry :=
  [("rapidjson", "writer"), ("nlohmann_json", "dump"), ("jsoncpp", "writeString"),
    ("boost_json", "serialize"), ("yyjson", "mut_write")].map fun names =>
      { kind := ascii "json", library := ascii names.1, codegen := ascii "n/a"
        api := ascii names.2, testCase }

/-- The measurements in the order of `main`. -/
def plan : List Entry :=
  cases.flatMap (runGoogleVariant "speed") ++ cases.flatMap (runGoogleVariant "code_size") ++
    cases.flatMap (runGoogleVariant "lite_runtime") ++ cases.map runProtobufC ++
    cases.flatMap runJson

/-- The columns of a row that name its configuration. -/
def Entry.columns (entry : Entry) : List Bytes :=
  [entry.kind, entry.library, entry.codegen, entry.api, caseName entry.testCase]

def Row.columns (row : Row) : List Bytes :=
  [row.kind, row.library, row.codegen, row.api, row.testCase]

theorem plan_length : plan.length = 36 := by decide

theorem plan_nodup : (plan.map Entry.columns).Nodup := by decide +kernel

end Plan

section Main

variable {World : Type}

/-- The clock, the closures that are measured, and the sizes of the protobuf messages. -/
structure Platform (World : Type) where
  now : World → ℤ × World
  encode : Entry → World → BitVec 64 × World
  byteSize : Entry → BitVec 64

def Platform.measurement (platform : Platform World) (entry : Entry) : Measurement World where
  kind := entry.kind
  library := entry.library
  codegen := entry.codegen
  api := entry.api
  testCase := entry.testCase
  bytesHint := if entry.kind = ascii "json" then 0 else platform.byteSize entry
  encode := platform.encode entry
  now := platform.now

/-- The measurements of `main`, which may not return. -/
def runPlan (platform : Platform World) (config : Config) (fuel : ℕ) (state : BenchState World) :
    Option (BenchState World) :=
  plan.foldlM (fun state entry => runMeasure config (platform.measurement entry) fuel state) state

/-- The rows of one measurement. -/
structure BlockOf (config : Config) (entry : Entry) (rows : List Row) : Prop where
  repetitions : rows.map (fun row => row.repetition.toNat) =
    List.range' 1 config.repetitions.toNat
  columns : ∀ row ∈ rows, row.columns = entry.columns
  iterations : ∀ row ∈ rows, row.iterations = config.iterations

variable {platform : Platform World} {config : Config} {entry : Entry} {fuel : ℕ}
  {state final : BenchState World}

/-- A round adds a row of its configuration. -/
theorem measureRound_row (measurement : Measurement World) (repetition : BitVec 32) :
    ∃ row : Row, (measureRound config measurement repetition state).rows = state.rows ++ [row] ∧
      row.repetition = repetition ∧ row.iterations = config.iterations ∧
      row.columns = [measurement.kind, measurement.library, measurement.codegen,
        measurement.api, caseName measurement.testCase] :=
  ⟨_, rfl, rfl, rfl, rfl⟩

/-- The rounds that have not wrapped the counter add the rows of their repetitions. -/
theorem rounds_block {count : ℕ} (hcount : count + 1 < 2 ^ 32) :
    ∃ rows : List Row, (rounds (measureRound config (platform.measurement entry)) count 1
        state).rows = state.rows ++ rows ∧
      rows.map (fun row => row.repetition.toNat) = List.range' 1 count ∧
      (∀ row ∈ rows, row.columns = entry.columns) ∧
      ∀ row ∈ rows, row.iterations = config.iterations := by
  refine rounds_invariant (fun k (t : BenchState World) => ∃ rows : List Row,
    t.rows = state.rows ++ rows ∧
    rows.map (fun row => row.repetition.toNat) = List.range' 1 k ∧
    (∀ row ∈ rows, row.columns = entry.columns) ∧
    ∀ row ∈ rows, row.iterations = config.iterations) ?_ ?_
  · exact ⟨[], (List.append_nil _).symm, rfl, fun _ h => absurd h List.not_mem_nil,
      fun _ h => absurd h List.not_mem_nil⟩
  · intro k hk t h
    obtain ⟨rows, hrows, hrepetitions, hcolumns, hiterations⟩ := h
    obtain ⟨row, hrow, hrepetition, hiteration, hcolumn⟩ := @measureRound_row World config t
      (platform.measurement entry) (1 + BitVec.ofNat 32 k)
    have hone : (1 : BitVec 32).toNat = 1 := rfl
    have hnumber : row.repetition.toNat = 1 + k := by
      rw [hrepetition, toNat_round (by omega), hone]
    refine ⟨rows ++ [row], ?_, ?_, ?_, ?_⟩
    · rw [hrow, hrows, List.append_assoc]
    · rw [List.map_append, hrepetitions, List.map_singleton, hnumber, List.range'_concat,
        Nat.one_mul]
    · exact List.forall_mem_append.mpr ⟨hcolumns, List.forall_mem_singleton.mpr hcolumn⟩
    · exact List.forall_mem_append.mpr ⟨hiterations, List.forall_mem_singleton.mpr hiteration⟩

/-- A measurement that returns has added its block. -/
theorem runMeasure_block
    (h : runMeasure config (platform.measurement entry) fuel state = some final) :
    config.repetitions ≠ BitVec.allOnes 32 ∧
      ∃ rows, final.rows = state.rows ++ rows ∧ BlockOf config entry rows := by
  have hone : (1 : BitVec 32).toNat = 1 := rfl
  obtain ⟨hbound, rfl⟩ := (forUpTo_ends_iff (by omega)).mp ⟨fuel, h⟩
  refine ⟨hbound, ?_⟩
  rw [hone, Nat.add_sub_cancel]
  obtain ⟨rows, hrows, hrepetitions, hcolumns, hiterations⟩ :=
    @rounds_block World platform config entry
      { state with world := warmup config (platform.measurement entry) state.world }
      config.repetitions.toNat (succ_lt_of_ne_allOnes hbound)
  exact ⟨rows, hrows,
    { repetitions := hrepetitions, columns := hcolumns, iterations := hiterations }⟩

theorem foldlM_blocks {entries : List Entry}
    (h : entries.foldlM (fun state entry =>
      runMeasure config (platform.measurement entry) fuel state) state = some final) :
    ∃ blocks : List (Entry × List Row), blocks.map Prod.fst = entries ∧
      final.rows = state.rows ++ blocks.flatMap Prod.snd ∧
      ∀ block ∈ blocks, BlockOf config block.1 block.2 := by
  induction entries generalizing state with
  | nil =>
    obtain rfl := Option.some.inj h
    exact ⟨[], rfl, (List.append_nil _).symm, fun _ h => absurd h List.not_mem_nil⟩
  | cons entry entries ih =>
    rw [List.foldlM_cons] at h
    obtain ⟨middle, hmiddle, hrest⟩ := Option.bind_eq_some_iff.mp h
    obtain ⟨-, rows, hrows, hblock⟩ := runMeasure_block hmiddle
    obtain ⟨blocks, hentries, hfinal, hblocks⟩ := ih hrest
    refine ⟨(entry, rows) :: blocks, ?_, ?_, List.forall_mem_cons.mpr ⟨hblock, hblocks⟩⟩
    · rw [List.map_cons, hentries]
    · rw [hfinal, hrows, List.append_assoc, List.flatMap_cons]

/-- What `main` has written when it returns. -/
theorem runPlan_blocks (h : runPlan platform config fuel state = some final) :
    ∃ blocks : List (Entry × List Row), blocks.map Prod.fst = plan ∧
      final.rows = state.rows ++ blocks.flatMap Prod.snd ∧
      ∀ block ∈ blocks, BlockOf config block.1 block.2 :=
  foldlM_blocks h

/-- What every round's row is, all rows of the benchmark are. -/
theorem runPlan_forall {holds : Row → Prop}
    (hround : ∀ entry repetition (state : BenchState World), ∃ row,
      (measureRound config (platform.measurement entry) repetition state).rows =
        state.rows ++ [row] ∧ holds row)
    (h : runPlan platform config fuel state = some final) (hrows : ∀ row ∈ state.rows, holds row) :
    ∀ row ∈ final.rows, holds row := by
  unfold runPlan at h
  generalize plan = entries at h
  induction entries generalizing state with
  | nil =>
    obtain rfl := Option.some.inj h
    exact hrows
  | cons entry entries ih =>
    rw [List.foldlM_cons] at h
    obtain ⟨middle, hmiddle, hrest⟩ := Option.bind_eq_some_iff.mp h
    obtain ⟨count, rfl⟩ := forUpTo_eq_rounds hmiddle
    refine ih ?_ hrest
    refine rounds_invariant (fun _ (t : BenchState World) => ∀ row ∈ t.rows, holds row) hrows ?_
    intro k _ t hkept
    obtain ⟨row, hrow, hholds⟩ := hround entry (1 + BitVec.ofNat 32 k) t
    rw [hrow]
    exact List.forall_mem_append.mpr ⟨hkept, List.forall_mem_singleton.mpr hholds⟩

theorem exists_runMeasure (hbound : config.repetitions ≠ BitVec.allOnes 32)
    (measurement : Measurement World) (state : BenchState World) :
    ∃ fuel final, runMeasure config measurement fuel state = some final := by
  have hone : (1 : BitVec 32).toNat = 1 := rfl
  have hends := fun final => @forUpTo_ends_iff (BenchState World) 32
    (measureRound config measurement) config.repetitions 1 (by omega)
    { state with world := warmup config measurement state.world } final
  obtain ⟨fuel, hreturns⟩ := (hends _).mpr ⟨hbound, rfl⟩
  exact ⟨fuel, _, hreturns⟩

/-- The measurements return for some fuel if the number of repetitions is not the largest. -/
theorem exists_runPlan (hbound : config.repetitions ≠ BitVec.allOnes 32)
    (state : BenchState World) : ∃ fuel final, runPlan platform config fuel state = some final := by
  have hentries : ∀ (entries : List Entry) (state : BenchState World), ∃ fuel final,
      ∀ fuel' ≥ fuel, entries.foldlM (fun state entry =>
        runMeasure config (platform.measurement entry) fuel' state) state = some final := by
    intro entries
    induction entries with
    | nil => exact fun state => ⟨0, state, fun _ _ => rfl⟩
    | cons entry entries ih =>
      intro state
      obtain ⟨fuel, middle, hreturns⟩ := exists_runMeasure hbound (platform.measurement entry) state
      obtain ⟨fuel', final, hrest⟩ := ih middle
      refine ⟨max fuel fuel', final, fun larger hlarger => ?_⟩
      have hfirst : runMeasure config (platform.measurement entry) larger state = some middle :=
        forUpTo_mono (by omega) hreturns
      rw [List.foldlM_cons, hfirst]
      exact hrest larger (by omega)
  obtain ⟨fuel, final, hreturns⟩ := hentries plan state
  exact ⟨fuel, final, hreturns fuel le_rfl⟩

end Main

section Tables

/-- How the stream prints a duration or a rate; a rate over no time at all is `inf`. -/
structure Printer where
  print : ℚ → Bytes
  plain : ∀ q, PlainField (print q)

/-- The stream as `run_measure` sets it. -/
def Printer.fixed : Printer := ⟨fixedText, fixedText_plain⟩

def Printer.rate (printer : Printer) : Option ℚ → Bytes
  | none => ascii "inf"
  | some q => printer.print q

def header : List Bytes :=
  ["kind", "library", "codegen", "api", "test_case", "repetition", "iterations", "bytes",
    "elapsed_ns", "ns_per_encode", "encodes_per_second", "checksum"].map ascii

def headerText : Bytes :=
  ascii "kind,library,codegen,api,test_case,repetition,iterations,bytes,elapsed_ns," ++
    ascii "ns_per_encode,encodes_per_second,checksum\n"

variable (printer : Printer)

/-- The line that `run_measure` writes for a repetition. -/
def rowText (row : Row) : Bytes :=
  row.kind ++ ascii "," ++ row.library ++ ascii "," ++ row.codegen ++ ascii "," ++ row.api ++
    ascii "," ++ row.testCase ++ ascii "," ++ decimalDigits row.repetition.toNat ++ ascii "," ++
    decimalDigits row.iterations.toNat ++ ascii "," ++ decimalDigits row.bytes.toNat ++
    ascii "," ++ printer.print row.elapsed ++ ascii "," ++ printer.print row.nsPerEncode ++
    ascii "," ++ printer.rate row.encodesPerSecond ++ ascii "," ++
    decimalDigits row.checksum.toNat ++ ascii "\n"

def csvText (rows : List Row) : Bytes := headerText ++ rows.flatMap (rowText printer)

/-- The columns of a row. -/
def record (row : Row) : List Bytes :=
  row.columns ++ [decimalDigits row.repetition.toNat, decimalDigits row.iterations.toNat,
    decimalDigits row.bytes.toNat, printer.print row.elapsed, printer.print row.nsPerEncode,
    printer.rate row.encodesPerSecond, decimalDigits row.checksum.toNat]

theorem rowText_eq (row : Row) : rowText printer row = recordText (record printer row) := by
  have hcomma : ascii "," = [44] := rfl
  have hnewline : ascii "\n" = [10] := rfl
  unfold rowText recordText record Row.columns
  simp only [hcomma, hnewline, List.cons_append, List.nil_append, List.intercalate_cons_cons,
    List.intercalate_singleton, List.append_assoc]

theorem csvText_eq (rows : List Row) :
    csvText printer rows = (header :: rows.map (record printer)).flatMap recordText := by
  have hheader : headerText = recordText header := by decide +kernel
  rw [csvText, hheader, List.flatMap_cons, List.flatMap_map]
  exact congrArg (recordText header ++ rows.flatMap ·) (funext (rowText_eq printer))

theorem header_plain : PlainRecord header :=
  plainRecord_of_all (by decide) (by decide +kernel)

theorem rate_plain (rate : Option ℚ) : PlainField (printer.rate rate) := by
  cases rate with
  | none =>
    have hinf : PlainField (ascii "inf") := plainField_of_all (by decide)
    exact hinf
  | some q => exact printer.plain q

/-- The names of the plan need no quotes. -/
theorem columns_plain {entry : Entry} (h : entry ∈ plan) :
    ∀ field ∈ entry.columns, PlainField field := by
  have hbytes : (plan.all fun entry => entry.columns.all fun field =>
      field.all fun b => b ≠ 44 ∧ b ≠ 34 ∧ b ≠ 10 ∧ b ≠ 13) = true := by decide +kernel
  intro field hfield
  exact plainField_of_all (List.all_eq_true.mp (List.all_eq_true.mp hbytes entry h) field hfield)

theorem record_plain {entry : Entry} (h : entry ∈ plan) {row : Row}
    (hrow : row.columns = entry.columns) : PlainRecord (record printer row) := by
  refine ⟨List.cons_ne_nil _ _, ?_, ?_⟩
  · intro hone
    cases congrArg List.length hone
  · have hcount := plainField_decimalDigits
    rw [record, hrow]
    refine List.forall_mem_append.mpr ⟨columns_plain h, ?_⟩
    simp only [List.forall_mem_cons]
    exact ⟨hcount _, hcount _, hcount _, printer.plain _, printer.plain _, rate_plain printer _,
      hcount _, fun _ h => absurd h List.not_mem_nil⟩

end Tables

end ProtobufKafkaBench.EncodeBenchmark

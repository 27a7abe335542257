import ProtobufKafkaBench.CommandLine
import ProtobufKafkaBench.CountedLoops
import ProtobufKafkaBench.Exceptions
import ProtobufKafkaBench.YyjsonDocument
import Mathlib.Data.Rat.Defs

/-!
The measurement loop of the encoding benchmark. Warmup, rounds and calls are
counted by machine integers, the rounds inclusively. So `run_measure` does what
it is asked unless the number of repetitions is the largest 32-bit integer; then
it never returns.
-/
namespace ProtobufKafkaBench.EncodeBenchmark

open ByteBuffers CommandLine CountedLoops Exceptions JsonObjects

section Configuration

structure Config where
  iterations : BitVec 64 := 1000000
  repetitions : BitVec 32 := 10
  warmupIterations : BitVec 64 := 10000
  csvPath : Bytes := ascii "/work/results/raw.csv"
  metadataPath : Bytes := ascii "/work/results/metadata.txt"

def flags (arg : Bytes) : Option (Flag Config) :=
  if arg = ascii "--iterations" then
    some (.takesValue fun config value => do
      return { config with iterations := ← stoull value })
  else if arg = ascii "--repetitions" then
    some (.takesValue fun config value => do
      return { config with repetitions := (← stoul value).setWidth 32 })
  else if arg = ascii "--warmup-iterations" then
    some (.takesValue fun config value => do
      return { config with warmupIterations := ← stoull value })
  else if arg = ascii "--csv" then
    some (.takesValue fun config value => .ok { config with csvPath := value })
  else if arg = ascii "--metadata" then
    some (.takesValue fun config value => .ok { config with metadataPath := value })
  else none

def checkConfig (config : Config) : Except CliError Config :=
  if config.iterations.toNat < 1000000 ∨ config.repetitions.toNat < 10 then
    .error (.runtimeError (ascii "iterations must be >= 1000000 and repetitions must be >= 10"))
  else .ok config

def parseArgs (args : List Bytes) : Except CliError Config := do
  checkConfig (← parseLoop flags {} args)

end Configuration

section Loop

def caseName : Case → Bytes
  | .int64 => ascii "one_string_ten_int64"
  | .decimal => ascii "one_string_ten_decimal_strings"
  | .wide => ascii "ten_strings_fifty_decimal_strings"

/-- The arguments of `run_measure`. The closure and the clock may change the world. -/
structure Measurement (World : Type) where
  kind : Bytes
  library : Bytes
  codegen : Bytes
  api : Bytes
  testCase : Case
  bytesHint : BitVec 64
  encode : World → BitVec 64 × World
  now : World → ℤ × World

/-- A line of the table; a rate over no time at all is infinite, here `none`. -/
structure Row where
  kind : Bytes
  library : Bytes
  codegen : Bytes
  api : Bytes
  testCase : Bytes
  repetition : BitVec 32
  iterations : BitVec 64
  bytes : BitVec 64
  elapsed : ℤ
  nsPerEncode : ℚ
  encodesPerSecond : Option ℚ
  checksum : BitVec 64

variable {World : Type}

/-- The world and the lines of the table so far. -/
structure BenchState (World : Type) where
  world : World
  rows : List Row

structure Tally (World : Type) where
  world : World
  bytes : BitVec 64
  checksum : BitVec 64

def encodeCall (measurement : Measurement World) (tally : Tally World) : Tally World :=
  let called := measurement.encode tally.world
  { world := called.2, bytes := called.1, checksum := tally.checksum + called.1 }

def measureRound (config : Config) (measurement : Measurement World) (repetition : BitVec 32)
    (state : BenchState World) : BenchState World :=
  let start := measurement.now state.world
  let tally := forBelow (fun _ => encodeCall measurement) config.iterations 0
    { world := start.2, bytes := measurement.bytesHint, checksum := 0 }
  let stop := measurement.now tally.world
  let elapsed := stop.1 - start.1
  let nsPerEncode : ℚ := elapsed / config.iterations.toNat
  let row : Row := {
    kind := measurement.kind
    library := measurement.library
    codegen := measurement.codegen
    api := measurement.api
    testCase := caseName measurement.testCase
    repetition
    iterations := config.iterations
    bytes := tally.bytes
    elapsed
    nsPerEncode
    encodesPerSecond := if nsPerEncode = 0 then none else some (1000000000 / nsPerEncode)
    checksum := tally.checksum }
  { world := stop.2, rows := state.rows ++ [row] }

def warmup (config : Config) (measurement : Measurement World) (world : World) : World :=
  forBelow (fun _ world => (measurement.encode world).2) config.warmupIterations 0 world

/-- `run_measure`, which may not return; the fuel bounds the rounds that are looked at. -/
def runMeasure (config : Config) (measurement : Measurement World) (fuel : ℕ)
    (state : BenchState World) : Option (BenchState World) :=
  forUpTo (measureRound config measurement) config.repetitions fuel 1
    { state with world := warmup config measurement state.world }

end Loop

section Accounts

variable {World : Type}

/-- What so many calls of a closure return, and the world after them. -/
def calls (encode : World → BitVec 64 × World) : ℕ → World → List (BitVec 64) × World
  | 0, world => ([], world)
  | count + 1, world =>
    let called := encode world
    let rest := calls encode count called.2
    (called.1 :: rest.1, rest.2)

theorem calls_length (encode : World → BitVec 64 × World) (count : ℕ) (world : World) :
    (calls encode count world).1.length = count := by
  induction count generalizing world with
  | zero => rfl
  | succ count ih =>
    rw [calls, List.length_cons, ih]

theorem warmup_eq (config : Config) (measurement : Measurement World) (world : World) :
    warmup config measurement world =
      (calls measurement.encode config.warmupIterations.toNat world).2 := by
  rw [warmup, forBelow_zero]
  generalize (0 : BitVec 64) = i
  induction config.warmupIterations.toNat generalizing i world with
  | zero => rfl
  | succ count ih =>
    rw [rounds, ih]
    rfl

/-- The timed calls sum up what they return. -/
theorem rounds_encodeCall (measurement : Measurement World) (count : ℕ) (i : BitVec 64)
    (tally : Tally World) :
    (rounds (fun _ => encodeCall measurement) count i tally).world =
        (calls measurement.encode count tally.world).2 ∧
      (rounds (fun _ => encodeCall measurement) count i tally).checksum =
        tally.checksum + (calls measurement.encode count tally.world).1.sum := by
  induction count generalizing i tally with
  | zero => exact ⟨rfl, (BitVec.add_zero _).symm⟩
  | succ count ih =>
    obtain ⟨hworld, hchecksum⟩ := ih (i + 1) (encodeCall measurement tally)
    rw [rounds]
    refine ⟨hworld, ?_⟩
    rw [hchecksum, calls, List.sum_cons, encodeCall, BitVec.add_assoc]

/-- One measured round: the clock is read, the closure is called `iterations` times, the
clock is read again, and the row has the sum of the sizes that were returned. -/
structure MeasuredRound (config : Config) (measurement : Measurement World) (repetition : ℕ)
    (before after : World) (row : Row) (sizes : List (BitVec 64)) : Prop where
  called : ∃ world, calls measurement.encode config.iterations.toNat
    (measurement.now before).2 = (sizes, world) ∧ after = (measurement.now world).2
  length_eq : sizes.length = config.iterations.toNat
  repetition_eq : row.repetition.toNat = repetition
  iterations_eq : row.iterations = config.iterations
  checksum_eq : row.checksum = sizes.sum

/-- Rounds one after the other, with their rows. -/
inductive Measures (config : Config) (measurement : Measurement World) (start : World) :
    List Row → World → Prop
  | nil : Measures config measurement start [] start
  | snoc {rows : List Row} {before after : World} {row : Row} {sizes : List (BitVec 64)} :
      Measures config measurement start rows before →
      MeasuredRound config measurement (rows.length + 1) before after row sizes →
      Measures config measurement start (rows ++ [row]) after

variable {config : Config} {measurement : Measurement World} {start world : World}
  {rows : List Row}

theorem Measures.repetitions (h : Measures config measurement start rows world) :
    rows.map (fun row => row.repetition.toNat) = List.range' 1 rows.length := by
  induction h with
  | nil => rfl
  | @snoc rows before after row sizes _ hround ih =>
    rw [List.map_append, ih, List.length_append, List.length_singleton, List.range'_concat,
      List.map_singleton, hround.repetition_eq]
    congr 2
    omega

theorem measureRound_spec (state : BenchState World) (repetition : BitVec 32) :
    ∃ row sizes, (measureRound config measurement repetition state).rows = state.rows ++ [row] ∧
      MeasuredRound config measurement repetition.toNat state.world
        (measureRound config measurement repetition state).world row sizes := by
  have hcalls := rounds_encodeCall measurement config.iterations.toNat 0
    { world := (measurement.now state.world).2, bytes := measurement.bytesHint, checksum := 0 }
  rw [← forBelow_zero] at hcalls
  obtain ⟨hworld, hchecksum⟩ := hcalls
  refine ⟨_, (calls measurement.encode config.iterations.toNat
    (measurement.now state.world).2).1, rfl, ?_⟩
  refine { called := ⟨_, rfl, ?_⟩, length_eq := calls_length _ _ _, repetition_eq := rfl,
           iterations_eq := rfl, checksum_eq := ?_ }
  · rw [← hworld]
    rfl
  · exact hchecksum.trans (BitVec.zero_add _)

/-- Rounds that have not wrapped the counter are numbered from one. -/
theorem rounds_measures {count : ℕ} (hcount : count + 1 < 2 ^ 32) (state : BenchState World) :
    ∃ rows, rows.length = count ∧
      (rounds (measureRound config measurement) count 1 state).rows = state.rows ++ rows ∧
      Measures config measurement state.world rows
        (rounds (measureRound config measurement) count 1 state).world := by
  refine rounds_invariant (fun k (t : BenchState World) => ∃ rows, rows.length = k ∧
    t.rows = state.rows ++ rows ∧
    Measures config measurement state.world rows t.world) ?_ ?_
  · exact ⟨[], rfl, (List.append_nil _).symm, Measures.nil⟩
  · intro k hk t h
    obtain ⟨rows, hlength, hrows, hmeasures⟩ := h
    obtain ⟨row, sizes, hrow, hround⟩ :=
      @measureRound_spec World config measurement t (1 + BitVec.ofNat 32 k)
    have hnumber : (1 + BitVec.ofNat 32 k).toNat = rows.length + 1 := by
      have hone : (1 : BitVec 32).toNat = 1 := rfl
      rw [toNat_round (by omega), hone, hlength, Nat.add_comm]
    rw [hnumber] at hround
    refine ⟨rows ++ [row], ?_, ?_, hmeasures.snoc hround⟩
    · rw [List.length_append, hlength, List.length_singleton]
    · rw [hrow, hrows, List.append_assoc]

/-- `run_measure` returns after the requested rounds exactly if their number is not the
largest 32-bit integer. -/
theorem runMeasure_returns_iff (config : Config) (measurement : Measurement World)
    (state : BenchState World) :
    (∃ fuel final rows, runMeasure config measurement fuel state = some final ∧
      final.rows = state.rows ++ rows ∧
      rows.length = config.repetitions.toNat ∧
      rows.map (fun row => row.repetition.toNat) = List.range' 1 config.repetitions.toNat ∧
      Measures config measurement
        (calls measurement.encode config.warmupIterations.toNat state.world).2 rows
        final.world) ↔
    config.repetitions ≠ BitVec.allOnes 32 := by
  have hone : (1 : BitVec 32).toNat = 1 := rfl
  have hends := fun final => @forUpTo_ends_iff (BenchState World) 32
    (measureRound config measurement) config.repetitions 1 (by omega)
    { state with world := warmup config measurement state.world } final
  constructor
  · intro h
    obtain ⟨fuel, final, rows, hreturns, -⟩ := h
    exact ((hends final).mp ⟨fuel, hreturns⟩).1
  · intro h
    obtain ⟨fuel, hreturns⟩ := (hends _).mpr ⟨h, rfl⟩
    obtain ⟨rows, hlength, hrows, hmeasures⟩ :=
      @rounds_measures World config measurement config.repetitions.toNat
        (succ_lt_of_ne_allOnes h) { state with world := warmup config measurement state.world }
    rw [hone, Nat.add_sub_cancel] at hreturns
    refine ⟨fuel, _, rows, hreturns, hrows, hlength, ?_, ?_⟩
    · rw [hmeasures.repetitions, hlength]
    · rw [← warmup_eq]
      exact hmeasures

/-- A closure that returns 41 and a clock that stands still. -/
def constantMeasurement : Measurement Unit where
  kind := ascii "protobuf"
  library := ascii "google_protobuf"
  codegen := ascii "speed"
  api := ascii "SerializeToArray_preallocated"
  testCase := .int64
  bytesHint := 41
  encode _ := (41, ())
  now _ := (0, ())

/-- The largest number of repetitions is accepted, and the loop does not return. -/
theorem largest_repetitions_never_return :
    parseArgs ([ascii "--repetitions", ascii "4294967295"]) =
        .ok { repetitions := BitVec.allOnes 32 } ∧
      ¬ ∃ fuel final, runMeasure { repetitions := BitVec.allOnes 32 } constantMeasurement fuel
        { world := (), rows := [] } = some final := by
  refine ⟨rfl, ?_⟩
  intro h
  obtain ⟨fuel, final, hreturns⟩ := h
  rw [runMeasure, forUpTo_largest] at hreturns
  cases hreturns

end Accounts

end ProtobufKafkaBench.EncodeBenchmark

import ProtobufKafkaBench.CountedLoops
import ProtobufKafkaBench.LossyRepetitions
import ProtobufKafkaBench.ModeLists

/-!
The pipeline benchmark around its threads: `run_case`, the loops of `main` and the table. The
threads of each call may be scheduled in any way; the rows carry the modes in the order of the
list, the repetitions of a mode in order and the three events of a repetition.
-/
namespace ProtobufKafkaBench.AsyncPipeline

open Transitions AtomicCells ByteBuffers CommandLine CountedLoops Exceptions MarketEvents
open SpscPointerRing WireFormat
open AsyncReports (runRepetition runRepetition_dropped)

section Results

variable {Event : Type} [Traits Event] {visibility : Visibility} {runtime : Runtime}
  {config : Config} {mode : Mode} {base : Event} {result : Result}

/-- The results that `run_sync`, or `run_async` under some schedule of its threads, returns. -/
inductive Measured (visibility : Visibility) (runtime : Runtime) (config : Config) (mode : Mode)
    (base : Event) : Result → Prop
  | sync (times : ℕ → BitVec 64) (elapsed : BitVec 64) (result : Result)
      (hmode : mode = .syncBoth)
      (hreturns : runSync runtime config base (payloadSize base) times elapsed = .ok result) :
      Measured visibility runtime config mode base result
  | async (history : List (AsyncState Event × Label)) (state : AsyncState Event)
      (hmode : mode ≠ .syncBoth)
      (run : Run (AsyncStep visibility runtime config mode base (payloadSize base))
        (AsyncState.initial base) history state)
      (hreturned : state.main = .returned) :
      Measured visibility runtime config mode base state.result

/-- What such a result counts, for a queue that holds all iterations. -/
structure Result.Counted (config : Config) (mode : Mode) (result : Result) : Prop where
  dropped : result.dropped = 0
  completed_le : result.completed.toNat ≤ config.iterations.toNat
  completed_sync : mode = .syncBoth → result.completed = config.iterations

theorem syncItems_dropped {times : ℕ → BitVec 64} {items : List ℕ} {payloadBytes : ℕ}
    {state final : Scratch Event × Result}
    (h : items.foldlM (syncItem runtime base payloadBytes times) state = .ok final) :
    final.2.dropped = state.2.dropped := by
  induction items generalizing state with
  | nil =>
    obtain rfl := Except.ok.inj h
    rfl
  | cons item items ih =>
    rw [List.foldlM_cons] at h
    obtain ⟨next, hnext, hrest⟩ := bind_eq_ok.mp h
    obtain ⟨added, -, hnext⟩ := bind_eq_ok.mp hnext
    obtain rfl := Except.ok.inj hnext
    have hkept := ih hrest
    exact hkept

theorem Measured.counted (h : Measured visibility runtime config mode base result)
    (hcapacity : config.iterations.toNat ≤ kQueueCapacity) : result.Counted config mode := by
  cases h with
  | sync times elapsed result hmode hreturns =>
    obtain ⟨warm, -, hreturns⟩ := bind_eq_ok.mp hreturns
    obtain ⟨items, hitems, hreturns⟩ := bind_eq_ok.mp hreturns
    obtain rfl := Except.ok.inj hreturns
    exact { dropped := syncItems_dropped hitems, completed_le := le_rfl
            completed_sync := fun _ => rfl }
  | async history state hmode run hreturned =>
    exact { dropped := BitVec.eq_of_toNat_eq (runRepetition_dropped run hreturned hcapacity)
            completed_le := (runRepetition run hreturned).completed_le
            completed_sync := fun h => absurd h hmode }

/-- Every mode has a result; an asynchronous one may have completed nothing. -/
theorem exists_measured (visibility : Visibility) (mode : Mode) (base : Event)
    (hcapacity : config.iterations.toNat ≤ kQueueCapacity) :
    ∃ result, Measured visibility .standard config mode base result ∧
      (mode ≠ .syncBoth → result.completed = 0) := by
  by_cases hmode : mode = .syncBoth
  · exact ⟨_, .sync (fun _ => 0) 0 _ hmode
      (runSync_ok Runtime.standard_succeeds config base (fun _ => 0) 0), fun h => absurd hmode h⟩
  · obtain ⟨history, state, run, -, -, hreturned, -, hcompleted⟩ :=
      overtaken_run visibility .standard mode base (payloadSize base) hcapacity
    exact ⟨state.result, .async history state hmode run hreturned, fun _ => hcompleted⟩

end Results

section Cases

/-- The calls of `run_case` in a repetition. -/
inductive TestCase
  | int
  | decimal
  | wide
  deriving DecidableEq

namespace TestCase

def all : List TestCase := [.int, .decimal, .wide]

def name : TestCase → Bytes
  | .int => ascii (Traits.name IntEvent)
  | .decimal => ascii (Traits.name DecimalEvent)
  | .wide => ascii (Traits.name WideEvent)

def payloadSize : TestCase → ℕ
  | .int => AsyncPipeline.payloadSize (Traits.make : IntEvent)
  | .decimal => AsyncPipeline.payloadSize (Traits.make : DecimalEvent)
  | .wide => AsyncPipeline.payloadSize (Traits.make : WideEvent)

def Measured (visibility : Visibility) (runtime : Runtime) (config : Config) (mode : Mode) :
    TestCase → Result → Prop
  | .int => AsyncPipeline.Measured visibility runtime config mode (Traits.make : IntEvent)
  | .decimal => AsyncPipeline.Measured visibility runtime config mode (Traits.make : DecimalEvent)
  | .wide => AsyncPipeline.Measured visibility runtime config mode (Traits.make : WideEvent)

theorem Measured.counted {visibility : Visibility} {runtime : Runtime} {config : Config}
    {mode : Mode} {result : Result} {testCase : TestCase}
    (h : testCase.Measured visibility runtime config mode result)
    (hcapacity : config.iterations.toNat ≤ kQueueCapacity) : result.Counted config mode := by
  cases testCase with
  | int => exact AsyncPipeline.Measured.counted h hcapacity
  | decimal => exact AsyncPipeline.Measured.counted h hcapacity
  | wide => exact AsyncPipeline.Measured.counted h hcapacity

theorem mem_all (testCase : TestCase) : testCase ∈ all := by cases testCase <;> decide

theorem name_injective {first second : TestCase} (h : first.name = second.name) :
    first = second := by
  cases first <;> cases second <;> first | rfl | exact absurd h (by decide)

end TestCase

end Cases

section Main

/-- What every call of `run_case` ends with. -/
structure Outcomes (config : Config) where
  visibility : Visibility
  runtime : Runtime
  result : ℕ → Mode → TestCase → Result
  measured : ∀ (call : ℕ) (mode : Mode) (testCase : TestCase),
    testCase.Measured visibility runtime config mode (result call mode testCase)

structure Row where
  mode : Bytes
  testCase : TestCase
  repetition : BitVec 32
  iterations : BitVec 64
  payloadBytes : ℕ
  result : Result

/-- The number of calls so far, and the rows of the table. -/
structure MainState where
  calls : ℕ
  rows : List Row

variable {config : Config} (outcomes : Outcomes config)

def runCase (mode : Mode) (modeName : Bytes) (repetition : BitVec 32) (state : MainState)
    (testCase : TestCase) : MainState where
  calls := state.calls + 1
  rows := state.rows ++ [
    { mode := modeName, testCase, repetition, iterations := config.iterations
      payloadBytes := testCase.payloadSize + 6
      result := outcomes.result state.calls mode testCase }]

def runRepetitionOf (mode : Mode) (modeName : Bytes) (repetition : BitVec 32)
    (state : MainState) : MainState :=
  TestCase.all.foldl (runCase outcomes mode modeName repetition) state

/-- The loop over the repetitions, which may not end. -/
def runMode (fuel : ℕ) (mode : Mode) (modeName : Bytes) (state : Option MainState) :
    Option MainState :=
  state.bind (forUpTo (runRepetitionOf outcomes mode modeName) config.repetitions fuel 1)

/-- `main` after `parse_args`. -/
def runMain (fuel : ℕ) : Option (Option MainState × Except CliError Unit) :=
  (split (config.modes.length + 1) config.modes).map fun names =>
    modeLoop (runMode outcomes fuel) names (some { calls := 0, rows := [] })

/-- The names in the list of modes. -/
def Config.modeNames (config : Config) : List Bytes := config.modes.splitOn 44

/-- What tells the rows of a mode from each other, in their order. -/
def modeLabels (config : Config) (modeName : Bytes) : List (Bytes × ℕ × TestCase) :=
  (List.range' 1 config.repetitions.toNat).flatMap fun repetition =>
    TestCase.all.map fun testCase => (modeName, repetition, testCase)

def Row.label (row : Row) : Bytes × ℕ × TestCase :=
  (row.mode, row.repetition.toNat, row.testCase)

/-- What a row says. -/
structure Tells (outcomes : Outcomes config) (row : Row) : Prop where
  iterations : row.iterations = config.iterations
  payloadBytes : row.payloadBytes = row.testCase.payloadSize + 6
  called : ∃ call mode, parseMode row.mode = .ok mode ∧
    row.result = outcomes.result call mode row.testCase

/-- The rows that were added since `start`. -/
structure Added (outcomes : Outcomes config) (start final : MainState)
    (labels : List (Bytes × ℕ × TestCase)) : Prop where
  rows : ∃ rows, final.rows = start.rows ++ rows ∧ rows.map Row.label = labels ∧
    ∀ row ∈ rows, Tells outcomes row

variable {outcomes} {start middle final : MainState} {first second : List (Bytes × ℕ × TestCase)}

theorem Added.refl : Added outcomes start start [] :=
  ⟨[], (List.append_nil _).symm, rfl, fun _ h => absurd h List.not_mem_nil⟩

theorem Added.trans (h : Added outcomes start middle first)
    (h' : Added outcomes middle final second) : Added outcomes start final (first ++ second) := by
  obtain ⟨rows, hrows, hlabels, htells⟩ := h
  obtain ⟨rows', hrows', hlabels', htells'⟩ := h'
  refine ⟨rows ++ rows', ?_, ?_, List.forall_mem_append.mpr ⟨htells, htells'⟩⟩
  · rw [hrows', hrows, List.append_assoc]
  · rw [List.map_append, hlabels, hlabels']

variable {mode : Mode} {modeName : Bytes} {repetition : BitVec 32} {fuel : ℕ}

theorem runCase_added (hmode : parseMode modeName = .ok mode) (testCase : TestCase) :
    Added outcomes start (runCase outcomes mode modeName repetition start testCase)
      [(modeName, repetition.toNat, testCase)] := by
  refine ⟨_, rfl, rfl, List.forall_mem_singleton.mpr ?_⟩
  exact { iterations := rfl, payloadBytes := rfl, called := ⟨start.calls, mode, hmode, rfl⟩ }

theorem runRepetitionOf_added (hmode : parseMode modeName = .ok mode) :
    Added outcomes start (runRepetitionOf outcomes mode modeName repetition start)
      (TestCase.all.map fun testCase => (modeName, repetition.toNat, testCase)) :=
  ((runCase_added hmode .int).trans (runCase_added hmode .decimal)).trans
    (runCase_added hmode .wide)

/-- The repetitions of a mode, if their loop ends. -/
theorem runMode_added (hmode : parseMode modeName = .ok mode)
    (h : runMode outcomes fuel mode modeName (some start) = some final) :
    Added outcomes start final (modeLabels config modeName) := by
  have hone : (1 : BitVec 32).toNat = 1 := rfl
  obtain ⟨hbound, rfl⟩ := (forUpTo_ends_iff (by omega)).mp ⟨fuel, h⟩
  have hsmall := succ_lt_of_ne_allOnes hbound
  rw [hone, Nat.add_sub_cancel]
  refine rounds_invariant (fun k state => Added outcomes start state
    ((List.range' 1 k).flatMap fun repetition =>
      TestCase.all.map fun testCase => (modeName, repetition, testCase))) Added.refl ?_
  intro k hk state hadded
  have hnumber : (1 + BitVec.ofNat 32 k : BitVec 32).toNat = 1 + k := by
    rw [toNat_round (by omega), hone]
  have hround := @runRepetitionOf_added _ outcomes state mode modeName (1 + BitVec.ofNat 32 k) hmode
  rw [hnumber] at hround
  rw [List.range'_concat, List.flatMap_append, List.flatMap_singleton, Nat.one_mul]
  exact hadded.trans hround

theorem runMode_none (names : List Bytes) :
    (modeLoop (runMode outcomes fuel) names none).1 = none := by
  induction names with
  | nil => rfl
  | cons modeName names ih =>
    unfold modeLoop
    split
    · rfl
    · exact ih

/-- The loop over the modes, if it comes to its end. -/
theorem modeLoop_added {names : List Bytes}
    (h : modeLoop (runMode outcomes fuel) names (some start) = (some final, .ok ())) :
    (∀ modeName ∈ names, ∃ mode, parseMode modeName = .ok mode) ∧
      Added outcomes start final (names.flatMap (modeLabels config)) := by
  induction names generalizing start with
  | nil =>
    obtain rfl := Option.some.inj (Prod.mk.inj h).1
    exact ⟨fun _ h => absurd h List.not_mem_nil, Added.refl⟩
  | cons modeName names ih =>
    unfold modeLoop at h
    cases hmode : parseMode modeName with
    | error error =>
      rw [hmode] at h
      cases (Prod.mk.inj h).2
    | ok mode =>
      rw [hmode] at h
      change modeLoop (runMode outcomes fuel) names
        (runMode outcomes fuel mode modeName (some start)) = _ at h
      cases hrun : runMode outcomes fuel mode modeName (some start) with
      | none =>
        have hnone := @runMode_none _ outcomes fuel names
        rw [hrun] at h
        rw [h] at hnone
        cases hnone
      | some middle =>
        rw [hrun] at h
        obtain ⟨hnames, hrest⟩ := ih h
        refine ⟨List.forall_mem_cons.mpr ⟨⟨mode, hmode⟩, hnames⟩, ?_⟩
        rw [List.flatMap_cons]
        exact (runMode_added hmode hrun).trans hrest

/-- The rows of a benchmark that has come to its end. -/
theorem runMain_rows (h : runMain outcomes fuel = some (some final, .ok ())) :
    (∀ modeName ∈ config.modeNames, ∃ mode, parseMode modeName = .ok mode) ∧
      final.rows.map Row.label = config.modeNames.flatMap (modeLabels config) ∧
      ∀ row ∈ final.rows, Tells outcomes row := by
  rw [runMain, split_eq (Nat.lt_succ_self _), Option.map_some] at h
  obtain ⟨hnames, rows, hrows, hlabels, htells⟩ := modeLoop_added (Option.some.inj h)
  rw [List.nil_append] at hrows
  rw [hrows]
  exact ⟨hnames, hlabels, htells⟩

theorem exists_runMode (hbound : config.repetitions ≠ BitVec.allOnes 32) (mode : Mode)
    (modeName : Bytes) (start : MainState) :
    ∃ fuel final, ∀ larger ≥ fuel,
      runMode outcomes larger mode modeName (some start) = some final := by
  have hone : (1 : BitVec 32).toNat = 1 := rfl
  obtain ⟨fuel, hends⟩ := (@forUpTo_ends_iff MainState 32 (runRepetitionOf outcomes mode modeName)
    config.repetitions 1 (by omega) start _).mpr ⟨hbound, rfl⟩
  exact ⟨fuel, _, fun larger hlarger => forUpTo_mono hlarger hends⟩

/-- A benchmark with valid modes comes to its end unless the repetitions wrap. -/
theorem exists_runMain (hbound : config.repetitions ≠ BitVec.allOnes 32)
    (hnames : ∀ modeName ∈ config.modeNames, ∃ mode, parseMode modeName = .ok mode) :
    ∃ fuel final, runMain outcomes fuel = some (some final, .ok ()) := by
  have hloop : ∀ (names : List Bytes), (∀ modeName ∈ names, ∃ mode, parseMode modeName = .ok mode) →
      ∀ start, ∃ fuel final, ∀ larger ≥ fuel,
        modeLoop (runMode outcomes larger) names (some start) = (some final, .ok ()) := by
    intro names
    induction names with
    | nil => exact fun _ start => ⟨0, start, fun _ _ => rfl⟩
    | cons modeName names ih =>
      intro hvalid start
      obtain ⟨⟨mode, hmode⟩, hvalid⟩ := List.forall_mem_cons.mp hvalid
      obtain ⟨fuel, middle, hfirst⟩ := @exists_runMode _ outcomes hbound mode modeName start
      obtain ⟨fuel', final, hrest⟩ := ih hvalid middle
      refine ⟨max fuel fuel', final, fun larger hlarger => ?_⟩
      rw [modeLoop, hmode]
      change modeLoop (runMode outcomes larger) names
        (runMode outcomes larger mode modeName (some start)) = _
      rw [hfirst larger (by omega)]
      exact hrest larger (by omega)
  obtain ⟨fuel, final, hends⟩ := hloop config.modeNames hnames { calls := 0, rows := [] }
  refine ⟨fuel, final, ?_⟩
  rw [runMain, split_eq (Nat.lt_succ_self _), Option.map_some]
  exact congrArg some (hends fuel le_rfl)

/-- There are outcomes for every accepted configuration. -/
theorem exists_outcomes (visibility : Visibility)
    (hcapacity : config.iterations.toNat ≤ kQueueCapacity) :
    ∃ outcomes : Outcomes config, outcomes.visibility = visibility ∧
      ∀ call mode testCase, mode ≠ .syncBoth →
        (outcomes.result call mode testCase).completed = 0 := by
  have hresult : ∀ (_ : ℕ) (mode : Mode) (testCase : TestCase), ∃ result,
      testCase.Measured visibility .standard config mode result ∧
        (mode ≠ .syncBoth → result.completed = 0) := by
    intro _ mode testCase
    cases testCase with
    | int => exact exists_measured visibility mode _ hcapacity
    | decimal => exact exists_measured visibility mode _ hcapacity
    | wide => exact exists_measured visibility mode _ hcapacity
  choose result hmeasured hcompleted using hresult
  exact ⟨⟨visibility, .standard, result, hmeasured⟩, rfl, hcompleted⟩

end Main

end ProtobufKafkaBench.AsyncPipeline

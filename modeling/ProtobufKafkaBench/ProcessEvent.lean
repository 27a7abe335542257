import ProtobufKafkaBench.EventTraits
import ProtobufKafkaBench.CommandLine
import ProtobufKafkaBench.Exceptions
import ProtobufKafkaBench.SpscPointerRing

/-!
The asynchronous pipeline benchmark outside its threads: configuration, modes,
the work done for one event and the synchronous control path. Message, output
buffer and line are reused from event to event; what an event adds to the
checksum depends on the event and the mode alone.
-/
namespace ProtobufKafkaBench.AsyncPipeline

open Exceptions ByteBuffers WireFormat MarketEvents CommandLine SpscPointerRing

def kPoolSize : ℕ := 1024
def kQueueCapacity : ℕ := 1 <<< 20

/-- `SpscPointerRing<kQueueCapacity>`. -/
def queueCapacity : RingCapacity := ⟨20, by decide⟩

theorem queueCapacity_size : queueCapacity.size = kQueueCapacity := by decide

section Configuration

structure Config where
  iterations : BitVec 64 := 1000000
  repetitions : BitVec 32 := 10
  warmupIterations : BitVec 64 := 10000
  modes : Bytes := ascii "sync_both,async_handoff,async_protobuf,async_pipe,async_both"
  csvPath : Bytes := ascii "/work/results/async_pipeline_raw.csv"
  metadataPath : Bytes := ascii "/work/results/async_pipeline_metadata.txt"

def flags (arg : Bytes) : Option (Flag Config) :=
  if arg = ascii "--iterations" then
    some (.takesValue fun config value => do
      return { config with iterations := ← stoull value })
  else if arg = ascii "--repetitions" then
    some (.takesValue fun config value => do
      return { config with repetitions := (← stoul value).setWidth 32 })
  else if arg = ascii "--warmup-iterations" then
    some (.takesValue fun config value => do
      return { config with warmupIterations := ← stoull value })
  else if arg = ascii "--modes" then
    some (.takesValue fun config value => .ok { config with modes := value })
  else if arg = ascii "--csv" then
    some (.takesValue fun config value => .ok { config with csvPath := value })
  else if arg = ascii "--metadata" then
    some (.takesValue fun config value => .ok { config with metadataPath := value })
  else none

/-- The checks after the loop over the arguments. -/
def checkConfig (config : Config) : Except CliError Config :=
  if config.iterations.toNat < 1000000 ∨ config.repetitions.toNat < 10 then
    .error (.runtimeError (ascii "iterations must be >= 1000000 and repetitions must be >= 10"))
  else if config.iterations.toNat > kQueueCapacity then
    .error (.runtimeError (ascii "iterations exceed preallocated queue capacity"))
  else .ok config

def parseArgs (args : List Bytes) : Except CliError Config := do
  checkConfig (← parseLoop flags {} args)

theorem parseArgs_ok {args : List Bytes} {config : Config} (h : parseArgs args = .ok config) :
    1000000 ≤ config.iterations.toNat ∧ 10 ≤ config.repetitions.toNat ∧
      config.iterations.toNat ≤ kQueueCapacity := by
  obtain ⟨parsed, -, hcheck⟩ := bind_eq_ok.mp h
  unfold checkConfig at hcheck
  split at hcheck
  · simp at hcheck
  · split at hcheck
    · simp at hcheck
    · obtain rfl := Except.ok.inj hcheck
      omega

theorem parseArgs_nil : parseArgs [] = .ok {} := by rfl

inductive Mode
  | syncBoth
  | asyncHandoff
  | asyncProtobuf
  | asyncPipe
  | asyncBoth
  deriving DecidableEq

def parseMode (mode : Bytes) : Except CliError Mode :=
  if mode = ascii "sync_both" then .ok .syncBoth
  else if mode = ascii "async_handoff" then .ok .asyncHandoff
  else if mode = ascii "async_protobuf" then .ok .asyncProtobuf
  else if mode = ascii "async_pipe" then .ok .asyncPipe
  else if mode = ascii "async_both" then .ok .asyncBoth
  else .error (.runtimeError (ascii "invalid async pipeline mode: " ++ mode))

def doesProto (mode : Mode) : Bool := mode = .syncBoth ∨ mode = .asyncProtobuf ∨ mode = .asyncBoth

def doesPipe (mode : Mode) : Bool := mode = .syncBoth ∨ mode = .asyncPipe ∨ mode = .asyncBoth

end Configuration

section Processing

variable {Event : Type} [Traits Event]

/-- What one thread reuses for every event. -/
structure Scratch (Event : Type) [Traits Event] where
  message : Traits.Message Event
  output : ByteBuffer kOutputCapacity
  line : ByteBuffer kLogCapacity

/-- A freshly populated message and zeroed arrays. -/
def Scratch.initial (base : Event) : Scratch Event where
  message := Traits.populate base Traits.default
  output := ByteBuffer.zeros kOutputCapacity
  line := ByteBuffer.zeros kLogCapacity

def store {capacity : ℕ} (buffer : ByteBuffer capacity) (position : ℕ) (data : Bytes) :
    Except Fault (ByteBuffer capacity) :=
  match buffer.write position data with
  | some after => .ok after
  | none => .error .overrun

/-- The part of `process_event` under `does_pipe`. -/
def processPipe (event : Event) (mode : Mode) (scratch : Scratch Event) (checksum : BitVec 64) :
    Except Fault (BitVec 64 × Scratch Event) :=
  if doesPipe mode then do
    let formatted ← Traits.format event scratch.line
    return (checksum + BitVec.ofNat 64 formatted.position, { scratch with line := formatted.line })
  else .ok (checksum, scratch)

def processEvent (runtime : Runtime) (event : Event) (mode : Mode) (scratch : Scratch Event)
    (payloadBytes : ℕ) : Except Fault (BitVec 64 × Scratch Event) :=
  if doesProto mode then do
    let message := Traits.populate event scratch.message
    let output ← store scratch.output 0 [0, 0, 0, 0, 1, 0]
    let written := runtime.serializeToArray (Traits.fields message) (toCInt payloadBytes)
    let output ← store output 6 written.2
    let scratch := { scratch with message, output }
    if written.1 then processPipe event mode scratch (BitVec.ofNat 64 payloadBytes + 6)
    else return (0, scratch)
  else processPipe event mode scratch 0

def payloadSize (event : Event) : ℕ :=
  byteSizeLong (Traits.fields (Traits.populate event Traits.default))

/-- What one event adds to the checksum when everything succeeds. -/
def eventChecksum (event : Event) (mode : Mode) : ℕ :=
  (if doesProto mode then payloadSize event + 6 else 0) +
    (if doesPipe mode then lineLength event else 0)

theorem payloadSize_le (event : Event) : payloadSize event ≤ 2040 :=
  byteSizeLong_populate_le event Traits.default

theorem processPipe_ok (event : Event) (mode : Mode) (scratch : Scratch Event) (n : ℕ) :
    ∃ line, processPipe event mode scratch (BitVec.ofNat 64 n) =
      .ok (BitVec.ofNat 64 (n + if doesPipe mode then lineLength event else 0),
        { scratch with line }) := by
  unfold processPipe
  split
  · obtain ⟨after, hformat, -⟩ := format_ok event scratch.line
    exact ⟨after, by simp [hformat, bind, Except.bind, pure, Except.pure, BitVec.ofNat_add]⟩
  · exact ⟨scratch.line, by simp⟩

/-- A header and then data: both writes fit, and the buffer starts with the two. -/
theorem store_header {capacity : ℕ} (buffer : ByteBuffer capacity) (header data : Bytes)
    (hfits : header.length + data.length ≤ capacity) :
    ∃ first after, store buffer 0 header = .ok first ∧
      store first header.length data = .ok after ∧
      after.bytes.take (header.length + data.length) = header ++ data := by
  obtain ⟨first, hfirst, hfilled⟩ := buffer.filled_zero.write header (by omega)
  rw [zero_add, List.nil_append] at hfilled
  obtain ⟨after, hafter, -, htake⟩ := hfilled.write data hfits
  exact ⟨first, after, by rw [store, hfirst], by rw [store, hafter], htake⟩

/-- The fields of the message that `process_event` serializes. -/
def populatedFields (event : Event) (scratch : Scratch Event) : List Field :=
  Traits.fields (Traits.populate event scratch.message)

theorem populatedFields_size (event : Event) (scratch : Scratch Event) :
    byteSizeLong (populatedFields event scratch) = payloadSize event := by
  have hmessage : Traits.populate event scratch.message = Traits.populate event Traits.default :=
    Traits.populate_overwrites event _ _
  rw [populatedFields, hmessage]
  rfl

/-- The size of any event's message leaves room for the prefix, and whatever the
library writes for that size stays in the output array. -/
theorem processEvent_serializes (runtime : Runtime) (base event : Event) {mode : Mode}
    (scratch : Scratch Event) (hproto : doesProto mode = true) :
    ∃ output : ByteBuffer kOutputCapacity,
      processEvent runtime event mode scratch (payloadSize base) =
        (if (runtime.serializeToArray (populatedFields event scratch)
            (toCInt (payloadSize base))).1 = true then
          processPipe event mode
            { scratch with message := Traits.populate event scratch.message, output }
            (BitVec.ofNat 64 (payloadSize base + 6))
        else .ok (0, { scratch with message := Traits.populate event scratch.message, output })) ∧
      output.bytes.take (6 + (runtime.serializeToArray (populatedFields event scratch)
          (toCInt (payloadSize base))).2.length) =
        [0, 0, 0, 0, 1, 0] ++ (runtime.serializeToArray (populatedFields event scratch)
          (toCInt (payloadSize base))).2 := by
  have hroom := payloadSize_le base
  have hwritten := runtime.array_fits (populatedFields event scratch) (payloadSize base)
  obtain ⟨first, output, hfirst, houtput, htake⟩ := store_header scratch.output
    [0, 0, 0, 0, 1, 0] (runtime.serializeToArray (populatedFields event scratch)
      (toCInt (payloadSize base))).2
    (by simp only [List.length_cons, List.length_nil, kOutputCapacity]; omega)
  refine ⟨output, ?_, htake⟩
  unfold processEvent
  rw [if_pos hproto, BitVec.ofNat_add]
  show (store scratch.output 0 [0, 0, 0, 0, 1, 0] >>= fun first =>
    store first [(0 : UInt8), 0, 0, 0, 1, 0].length
      (runtime.serializeToArray (populatedFields event scratch)
        (toCInt (payloadSize base))).2 >>= _) = _
  rw [hfirst]
  simp only [bind, Except.bind, houtput]
  rfl

/-- Processing never faults, and what it adds does not depend on what the
message, the output array and the line held before. -/
theorem processEvent_ok {runtime : Runtime} (hsucceeds : runtime.Succeeds) (event : Event)
    (mode : Mode) (scratch : Scratch Event) :
    ∃ after, processEvent runtime event mode scratch (payloadSize event) =
      .ok (BitVec.ofNat 64 (eventChecksum event mode), after) := by
  unfold eventChecksum
  by_cases hproto : doesProto mode = true
  · obtain ⟨output, hrun, -⟩ := processEvent_serializes runtime event event scratch hproto
    have hroom := payloadSize_le event
    have hsize := populatedFields_size event scratch
    have hok := hsucceeds (populatedFields event scratch) (by omega)
    rw [hsize, ← toCInt_of_lt (by omega)] at hok
    rw [hrun, if_pos hok, if_pos hproto]
    obtain ⟨line, hpipe⟩ := processPipe_ok event mode
      { scratch with message := Traits.populate event scratch.message, output }
      (payloadSize event + 6)
    exact ⟨_, hpipe⟩
  · unfold processEvent
    rw [if_neg hproto, if_neg hproto]
    obtain ⟨line, hpipe⟩ := processPipe_ok event mode scratch 0
    exact ⟨_, hpipe⟩

end Processing

section RunSync

variable {Event : Type} [Traits Event]

structure Result where
  completed : BitVec 64 := 0
  dropped : BitVec 64 := 0
  hotElapsedNs : BitVec 64 := 0
  workerWallNs : BitVec 64 := 0
  checksum : BitVec 64 := 0
  hotSamples : List (BitVec 64) := []
  workerSamples : List (BitVec 64) := []

/-- One pass of the measured loop; `times i` is the duration measured for item `i`. -/
def syncItem (runtime : Runtime) (base : Event) (payloadBytes : ℕ) (times : ℕ → BitVec 64)
    (state : Scratch Event × Result) (i : ℕ) : Except Fault (Scratch Event × Result) := do
  let (added, scratch) ← processEvent runtime base .syncBoth state.1 payloadBytes
  return (scratch, { state.2 with
    checksum := state.2.checksum + added
    hotSamples := state.2.hotSamples ++ [times i] })

def warmItem (runtime : Runtime) (base : Event) (payloadBytes : ℕ) (scratch : Scratch Event)
    (_ : ℕ) : Except Fault (Scratch Event) := do
  let (_, scratch) ← processEvent runtime base .syncBoth scratch payloadBytes
  return scratch

/-- The control path: warm up, then process every event on the calling thread. -/
def runSync (runtime : Runtime) (config : Config) (base : Event) (payloadBytes : ℕ)
    (times : ℕ → BitVec 64) (elapsed : BitVec 64) : Except Fault Result := do
  let warm ← (List.range config.warmupIterations.toNat).foldlM
    (warmItem runtime base payloadBytes) (Scratch.initial base)
  let (_, result) ← (List.range config.iterations.toNat).foldlM
    (syncItem runtime base payloadBytes times) (warm, {})
  return { result with
    hotElapsedNs := elapsed
    workerSamples := result.hotSamples
    workerWallNs := elapsed
    completed := config.iterations }

theorem warmup_ok {runtime : Runtime} (hsucceeds : runtime.Succeeds) (base : Event)
    (rounds : List ℕ) (scratch : Scratch Event) :
    ∃ after, rounds.foldlM (warmItem runtime base (payloadSize base)) scratch = .ok after := by
  induction rounds generalizing scratch with
  | nil => exact ⟨scratch, rfl⟩
  | cons i rest ih =>
    obtain ⟨middle, hmiddle⟩ := processEvent_ok hsucceeds base .syncBoth scratch
    obtain ⟨after, hafter⟩ := ih middle
    refine ⟨after, ?_⟩
    have hitem : warmItem runtime base (payloadSize base) scratch i = .ok middle := by
      simp [warmItem, hmiddle, bind, Except.bind, pure, Except.pure]
    rw [List.foldlM_cons, hitem]
    exact hafter

/-- Each pass of the measured loop adds one event's checksum and one sample. -/
theorem syncItems_ok {runtime : Runtime} (hsucceeds : runtime.Succeeds) (base : Event)
    (times : ℕ → BitVec 64) (rounds : List ℕ) (scratch : Scratch Event) (result : Result) :
    ∃ after, rounds.foldlM (syncItem runtime base (payloadSize base) times) (scratch, result) =
      .ok (after, { result with
        checksum := result.checksum +
          BitVec.ofNat 64 (rounds.length * eventChecksum base .syncBoth)
        hotSamples := result.hotSamples ++ rounds.map times }) := by
  induction rounds generalizing scratch result with
  | nil => exact ⟨scratch, by simp [pure, Except.pure]⟩
  | cons i rest ih =>
    obtain ⟨middle, hmiddle⟩ := processEvent_ok hsucceeds base .syncBoth scratch
    obtain ⟨after, hafter⟩ := ih middle { result with
      checksum := result.checksum + BitVec.ofNat 64 (eventChecksum base .syncBoth)
      hotSamples := result.hotSamples ++ [times i] }
    refine ⟨after, ?_⟩
    have hitem : syncItem runtime base (payloadSize base) times (scratch, result) i =
        .ok (middle, { result with
          checksum := result.checksum + BitVec.ofNat 64 (eventChecksum base .syncBoth)
          hotSamples := result.hotSamples ++ [times i] }) := by
      simp [syncItem, hmiddle, bind, Except.bind, pure, Except.pure]
    have hcount : BitVec.ofNat 64 ((i :: rest).length * eventChecksum base .syncBoth) =
        BitVec.ofNat 64 (eventChecksum base .syncBoth) +
          BitVec.ofNat 64 (rest.length * eventChecksum base .syncBoth) := by
      rw [← BitVec.ofNat_add, List.length_cons, Nat.succ_mul, Nat.add_comm]
    rw [List.foldlM_cons, hitem, hcount, ← BitVec.add_assoc]
    simpa [bind, Except.bind] using hafter

/-- The control path completes every iteration and adds the same amount for each. -/
theorem runSync_ok {runtime : Runtime} (hsucceeds : runtime.Succeeds) (config : Config)
    (base : Event) (times : ℕ → BitVec 64) (elapsed : BitVec 64) :
    runSync runtime config base (payloadSize base) times elapsed = .ok {
      completed := config.iterations
      hotElapsedNs := elapsed
      workerWallNs := elapsed
      checksum := config.iterations * BitVec.ofNat 64 (eventChecksum base .syncBoth)
      hotSamples := (List.range config.iterations.toNat).map times
      workerSamples := (List.range config.iterations.toNat).map times } := by
  obtain ⟨warm, hwarm⟩ := warmup_ok hsucceeds base (List.range config.warmupIterations.toNat)
    (Scratch.initial base)
  obtain ⟨after, hitems⟩ := syncItems_ok hsucceeds base times
    (List.range config.iterations.toNat) warm {}
  unfold runSync
  simp only [hwarm, bind, Except.bind]
  simp only [hitems]
  simp [pure, Except.pure, BitVec.ofNat_mul]

end RunSync

end ProtobufKafkaBench.AsyncPipeline

import ProtobufKafkaBench.CommandLine
import ProtobufKafkaBench.MarketEvents
import ProtobufKafkaBench.Mutexes
import ProtobufKafkaBench.Transitions
import Mathlib.Data.BitVec

/-!
The concurrency benchmark: warm-up, and then in each repetition one worker
thread for each of `threads`, started together by a barrier. A worker serializes
its share of the iterations, in one mode into a buffer that all of them share
under a mutex, and adds its checksum to the common one under another mutex. Each
lock, each write, each load and store of the common checksum is a step of its own.
-/
namespace ProtobufKafkaBench.Concurrency

open ByteBuffers WireFormat MarketEvents CommandLine Mutexes Transitions

section Data

structure Config where
  iterations : BitVec 64 := 1000000
  repetitions : BitVec 32 := 10
  warmupIterations : BitVec 64 := 10000
  threads : BitVec 32 := 1
  mode : Bytes := ascii "thread_local"

/-- The two checks at the start of `run`. -/
def checkRun (config : Config) : Except CliError Unit :=
  if config.threads = 0 ∨ config.iterations % config.threads.setWidth 64 ≠ 0 then
    .error (.runtimeError (ascii "iterations must be divisible by threads"))
  else if config.mode ≠ ascii "thread_local" ∧ config.mode ≠ ascii "shared_readonly" ∧
      config.mode ≠ ascii "shared_buffer_mutex" then
    .error (.runtimeError (ascii "invalid concurrency mode"))
  else .ok ()

def makeMessage : OneStringTenInt64 where
  symbol := ascii "BTC-USD"
  value01 := 1000001
  value02 := 1000002
  value03 := 1000003
  value04 := 1000004
  value05 := 1000005
  value06 := 1000006
  value07 := 1000007
  value08 := 1000008
  value09 := 1000009
  value10 := 1000010

/-- `message.ByteSizeLong()`. -/
def bytes : BitVec 64 := BitVec.ofNat 64 (byteSizeLong makeMessage.fields)

theorem bytes_eq : bytes = 49 := by decide +kernel

/-- `config.iterations / config.threads`, the bound of a worker's loop. -/
def Config.share (config : Config) : BitVec 64 := config.iterations / config.threads.setWidth 64

/-- `thread_index`. -/
abbrev ThreadIndex (config : Config) := Fin config.threads.toNat

end Data

section Threads

/-- `absent` is a thread that has not been created yet in this repetition. A
thread at `serializingShared` is inside the write of the shared buffer, one at
`serializingOwn` inside the write of its own. -/
inductive WorkerPc
  | absent
  | arriving
  | waiting
  | testing
  | lockingBuffer
  | serializingShared
  | unlockingBuffer (ok : Bool)
  | serializingOwn
  | adding (ok : Bool)
  | lockingChecksum
  | loadingChecksum
  | storingChecksum (loaded : BitVec 64)
  | unlockingChecksum
  | exited
  deriving DecidableEq

structure Worker where
  pc : WorkerPc := .absent
  i : BitVec 64 := 0
  localChecksum : BitVec 64 := 0

inductive MainPc
  | warming (i : BitVec 64)
  | testing
  | spawning (index : ℕ)
  | arriving
  | waiting
  | joining (index : ℕ)
  | reporting
  | finished
  deriving DecidableEq

/-- `std::barrier`, used for one phase. An arrival when none is expected is
undefined, and so has no result. -/
structure Barrier where
  expected : ℕ
  completed : Bool

def Barrier.arrive (barrier : Barrier) : Option Barrier :=
  match barrier.expected with
  | 0 => none
  | n + 1 => some ⟨n, n = 0⟩

/-- A line of the CSV file without its measured times. -/
structure Row where
  mode : Bytes
  threads : BitVec 32
  repetition : BitVec 32
  iterations : BitVec 64
  bytes : BitVec 64
  checksum : BitVec 64

structure State (config : Config) where
  main : MainPc
  repetition : BitVec 32
  checksum : BitVec 64
  barrier : Barrier
  sharedMutex : Mutex (ThreadIndex config)
  checksumMutex : Mutex (ThreadIndex config)
  worker : ThreadIndex config → Worker
  rows : List Row

variable {config : Config}

def State.initial (config : Config) : State config where
  main := .warming 0
  repetition := 1
  checksum := 0
  barrier := ⟨0, false⟩
  sharedMutex := none
  checksumMutex := none
  worker _ := {}
  rows := []

def State.setWorker (state : State config) (index : ThreadIndex config) (worker : Worker) :
    State config :=
  { state with worker := Function.update state.worker index worker }

/-- The locals of one repetition: its barrier counts the workers and the main
thread in 32 bits. -/
def State.startRepetition (state : State config) : State config :=
  { state with
    main := .spawning 0
    checksum := 0
    barrier := ⟨(config.threads + 1).toNat, false⟩
    checksumMutex := none
    worker := fun _ => {} }

def State.row (state : State config) : Row :=
  ⟨config.mode, config.threads, state.repetition, config.iterations, bytes, state.checksum⟩

inductive Label (config : Config)
  | startRepetition
  | serialized (index : ThreadIndex config) (ok : Bool)
  | other

end Threads

section Steps

variable {config : Config}

inductive MainStep (config : Config) : State config → Label config → State config → Prop
  | warmUp (state : State config) (i : BitVec 64) (hpc : state.main = .warming i)
      (hi : i < config.warmupIterations) :
      MainStep config state .other { state with main := .warming (i + 1) }
  | warm (state : State config) (i : BitVec 64) (hpc : state.main = .warming i)
      (hi : ¬ i < config.warmupIterations) :
      MainStep config state .other { state with main := .testing }
  | startRepetition (state : State config) (hpc : state.main = .testing)
      (hrepetition : state.repetition ≤ config.repetitions) :
      MainStep config state .startRepetition state.startRepetition
  | finish (state : State config) (hpc : state.main = .testing)
      (hrepetition : ¬ state.repetition ≤ config.repetitions) :
      MainStep config state .other { state with main := .finished }
  | spawn (state : State config) (index : ThreadIndex config)
      (hpc : state.main = .spawning index) :
      MainStep config state .other
        { state.setWorker index { pc := .arriving } with main := .spawning (index + 1) }
  | spawned (state : State config) (hpc : state.main = .spawning config.threads.toNat) :
      MainStep config state .other { state with main := .arriving }
  | arrive (state : State config) (barrier : Barrier) (hpc : state.main = .arriving)
      (harrive : state.barrier.arrive = some barrier) :
      MainStep config state .other { state with main := .waiting, barrier }
  | pass (state : State config) (hpc : state.main = .waiting)
      (hcompleted : state.barrier.completed = true) :
      MainStep config state .other { state with main := .joining 0 }
  | join (state : State config) (index : ThreadIndex config)
      (hpc : state.main = .joining index) (hexited : (state.worker index).pc = .exited) :
      MainStep config state .other { state with main := .joining (index + 1) }
  | joined (state : State config) (hpc : state.main = .joining config.threads.toNat) :
      MainStep config state .other { state with main := .reporting }
  | report (state : State config) (hpc : state.main = .reporting) :
      MainStep config state .other
        { state with
          main := .testing
          repetition := state.repetition + 1
          rows := state.rows ++ [state.row] }

/-- The steps of one worker; whether a serialization succeeds is arbitrary. -/
inductive WorkerStep (config : Config) (index : ThreadIndex config) :
    State config → Label config → State config → Prop
  | arrive (state : State config) (barrier : Barrier)
      (hpc : (state.worker index).pc = .arriving)
      (harrive : state.barrier.arrive = some barrier) :
      WorkerStep config index state .other
        { state.setWorker index { state.worker index with pc := .waiting } with barrier }
  | pass (state : State config) (hpc : (state.worker index).pc = .waiting)
      (hcompleted : state.barrier.completed = true) :
      WorkerStep config index state .other
        (state.setWorker index { pc := .testing, i := 0, localChecksum := 0 })
  | enterShared (state : State config) (hpc : (state.worker index).pc = .testing)
      (hi : (state.worker index).i < config.share)
      (hmode : config.mode = ascii "shared_buffer_mutex") :
      WorkerStep config index state .other
        (state.setWorker index { state.worker index with pc := .lockingBuffer })
  | lockBuffer (state : State config) (hpc : (state.worker index).pc = .lockingBuffer)
      (hfree : state.sharedMutex = none) :
      WorkerStep config index state .other
        { state.setWorker index { state.worker index with pc := .serializingShared } with
          sharedMutex := some index }
  | serializeShared (state : State config) (ok : Bool)
      (hpc : (state.worker index).pc = .serializingShared) :
      WorkerStep config index state (.serialized index ok)
        (state.setWorker index { state.worker index with pc := .unlockingBuffer ok })
  | unlockBuffer (state : State config) (ok : Bool)
      (hpc : (state.worker index).pc = .unlockingBuffer ok) :
      WorkerStep config index state .other
        { state.setWorker index { state.worker index with pc := .adding ok } with
          sharedMutex := none }
  | enterOwn (state : State config) (hpc : (state.worker index).pc = .testing)
      (hi : (state.worker index).i < config.share)
      (hmode : config.mode ≠ ascii "shared_buffer_mutex") :
      WorkerStep config index state .other
        (state.setWorker index { state.worker index with pc := .serializingOwn })
  | serializeOwn (state : State config) (ok : Bool)
      (hpc : (state.worker index).pc = .serializingOwn) :
      WorkerStep config index state (.serialized index ok)
        (state.setWorker index { state.worker index with pc := .adding ok })
  | add (state : State config) (ok : Bool) (hpc : (state.worker index).pc = .adding ok) :
      WorkerStep config index state .other
        (state.setWorker index
          { pc := .testing
            i := (state.worker index).i + 1
            localChecksum := (state.worker index).localChecksum + if ok then bytes else 0 })
  | leave (state : State config) (hpc : (state.worker index).pc = .testing)
      (hi : ¬ (state.worker index).i < config.share) :
      WorkerStep config index state .other
        (state.setWorker index { state.worker index with pc := .lockingChecksum })
  | lockChecksum (state : State config) (hpc : (state.worker index).pc = .lockingChecksum)
      (hfree : state.checksumMutex = none) :
      WorkerStep config index state .other
        { state.setWorker index { state.worker index with pc := .loadingChecksum } with
          checksumMutex := some index }
  | loadChecksum (state : State config) (hpc : (state.worker index).pc = .loadingChecksum) :
      WorkerStep config index state .other
        (state.setWorker index { state.worker index with
          pc := .storingChecksum state.checksum })
  | storeChecksum (state : State config) (loaded : BitVec 64)
      (hpc : (state.worker index).pc = .storingChecksum loaded) :
      WorkerStep config index state .other
        { state.setWorker index { state.worker index with pc := .unlockingChecksum } with
          checksum := loaded + (state.worker index).localChecksum }
  | unlockChecksum (state : State config) (hpc : (state.worker index).pc = .unlockingChecksum) :
      WorkerStep config index state .other
        { state.setWorker index { state.worker index with pc := .exited } with
          checksumMutex := none }

/-- Any thread may take the next step. -/
inductive Step (config : Config) (state : State config) (label : Label config)
    (state' : State config) : Prop
  | main (h : MainStep config state label state')
  | work (index : ThreadIndex config) (h : WorkerStep config index state label state')

end Steps

end ProtobufKafkaBench.Concurrency

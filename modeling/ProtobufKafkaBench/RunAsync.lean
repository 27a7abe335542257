import ProtobufKafkaBench.ProcessEvent
import ProtobufKafkaBench.RingRefinement

/-!
The threads of `run_async` as one step relation. The producer pushes pool
pointers and then sets `producer_done`; the worker pops, and on a null pop reads
`producer_done` and leaves its loop when it is set; the main thread releases
both and joins them. Each atomic load or store and each slot access is one step.
-/
namespace ProtobufKafkaBench.AsyncPipeline

open Transitions AtomicCells ByteBuffers WireFormat MarketEvents SpscPointerRing

/-- `i & (kPoolSize - 1)`. -/
def poolIndex (i : BitVec 64) : Fin kPoolSize :=
  ⟨(i &&& (BitVec.ofNat 64 kPoolSize - 1)).toNat, by
    have h := toNat_and_mask (w := 64) i.toNat 10 (by decide)
    rw [BitVec.ofNat_toNat, BitVec.setWidth_eq] at h
    rw [show kPoolSize = 2 ^ 10 by rfl, h]
    exact Nat.mod_lt _ (by decide)⟩

/-- The pool of 1024 events is used in turn. -/
theorem poolIndex_val (k : ℕ) : (poolIndex (BitVec.ofNat 64 k)).val = k % 1024 :=
  toNat_and_mask (w := 64) k 10 (by decide)

/-- A pointer into the pool, as it travels through the ring. -/
abbrev PoolPointer := Fin kPoolSize

abbrev RingEvent := SpscPointerRing.Event queueCapacity PoolPointer

inductive ProducerThread
  | starting
  | waiting
  | running
  | exited
  deriving DecidableEq

/-- `checkingDone` is the worker after a null `pop`, before it reads `producer_done`. -/
inductive WorkerThread
  | starting
  | waiting
  | popping
  | checkingDone
  | processing (value : PoolPointer)
  | exited
  deriving DecidableEq

inductive MainThread
  | waitReady
  | storeStart
  | joinProducer
  | joinWorker
  | returned
  deriving DecidableEq

section Threads

variable {Event : Type} [Traits Event]

structure AsyncState (Event : Type) [Traits Event] where
  ring : Ring queueCapacity PoolPointer
  ready : ℕ
  start : AtomicCell Bool
  producerDone : AtomicCell Bool
  producer : ProducerThread
  i : BitVec 64
  worker : WorkerThread
  scratch : Scratch Event
  workerWallNs : BitVec 64
  workerChecksum : BitVec 64
  workerCompleted : BitVec 64
  main : MainThread
  result : Result

namespace AsyncState

def initial (base : Event) : AsyncState Event where
  ring := Ring.initial queueCapacity PoolPointer
  ready := 2
  start := AtomicCell.init false
  producerDone := AtomicCell.init false
  producer := .starting
  i := 0
  worker := .starting
  scratch := Scratch.initial base
  workerWallNs := 0
  workerChecksum := 0
  workerCompleted := 0
  main := .waitReady
  result := {}

/-- The rest of the producer's loop body once `try_push` has returned. -/
def afterPush (state : AsyncState Event) (event : RingEvent)
    (ring : Ring queueCapacity PoolPointer) (sample : BitVec 64) : AsyncState Event :=
  { state with
    ring
    i := match event with
      | .pushFull _ | .pushStore _ => state.i + 1
      | _ => state.i
    result := match event with
      | .pushFull _ => { state.result with dropped := state.result.dropped + 1 }
      | .pushStore _ =>
        { state.result with hotSamples := state.result.hotSamples ++ [sample] }
      | _ => state.result }

/-- Where the worker goes with what `pop` has returned. -/
def afterPop (state : AsyncState Event) (event : RingEvent)
    (ring : Ring queueCapacity PoolPointer) : AsyncState Event :=
  { state with
    ring
    worker := match event with
      | .popEmpty | .popStore none => .checkingDone
      | .popStore (some value) => .processing value
      | _ => .popping }

/-- The worker's accounting for one event that added `added` to its checksum. -/
def afterItem (state : AsyncState Event) (scratch : Scratch Event) (added sample : BitVec 64) :
    AsyncState Event :=
  { state with
    scratch
    workerChecksum := state.workerChecksum + added
    workerCompleted := state.workerCompleted + 1
    worker := .popping
    result := { state.result with workerSamples := state.result.workerSamples ++ [sample] } }

/-- The ring is empty when its counters agree. -/
def RingEmpty (state : AsyncState Event) : Prop :=
  state.ring.head.current = state.ring.tail.current

end AsyncState

/-- Every event of the pool is a copy of `base`. -/
def pool (base : Event) : PoolPointer → Event := fun _ => base

/-- The worker's loop body on a popped event: `AsyncHandoff` only touches it. -/
def processItem (runtime : Runtime) (event : Event) (mode : Mode) (scratch : Scratch Event)
    (payloadBytes : ℕ) : Except Fault (BitVec 64 × Scratch Event) :=
  if mode = .asyncHandoff then .ok (0, scratch)
  else processEvent runtime event mode scratch payloadBytes

inductive Label
  | ring (event : RingEvent)
  | process (value : PoolPointer)
  | loadProducerDone (value : Bool)
  | storeProducerDone
  | other

/-- A step of the ring that belongs to `try_push`. -/
def isPush : RingEvent → Bool
  | .pushLoadHead _ | .pushFull _ | .pushRoom | .pushWrite _ _ | .pushStore _ => true
  | _ => false

/-- The steps of the worker, the producer and the main thread; measured
durations are arbitrary. -/
inductive AsyncStep (visibility : Visibility) (runtime : Runtime) (config : Config) (mode : Mode)
    (base : Event) (payloadBytes : ℕ) : AsyncState Event → Label → AsyncState Event → Prop
  | workerReady (state : AsyncState Event) (hpc : state.worker = .starting) :
      AsyncStep visibility runtime config mode base payloadBytes state .other
        { state with
          ready := state.ready - 1, worker := .waiting, scratch := Scratch.initial base }
  | workerSpin (state : AsyncState Event) (version : ℕ) (hpc : state.worker = .waiting)
      (hread : visibility.Reads 0 state.start version false) :
      AsyncStep visibility runtime config mode base payloadBytes state .other state
  | workerStart (state : AsyncState Event) (version : ℕ) (hpc : state.worker = .waiting)
      (hread : visibility.Reads 0 state.start version true) :
      AsyncStep visibility runtime config mode base payloadBytes state .other
        { state with worker := .popping }
  | pop (state : AsyncState Event) (event : RingEvent) (ring : Ring queueCapacity PoolPointer)
      (hpc : state.worker = .popping) (hparty : isPush event = false)
      (hring : SpscPointerRing.Step visibility state.ring event ring) :
      AsyncStep visibility runtime config mode base payloadBytes state (.ring event)
        (state.afterPop event ring)
  | loadDone (state : AsyncState Event) (version : ℕ) (elapsed : BitVec 64)
      (hpc : state.worker = .checkingDone)
      (hread : visibility.Reads 0 state.producerDone version true) :
      AsyncStep visibility runtime config mode base payloadBytes state (.loadProducerDone true)
        { state with worker := .exited, workerWallNs := elapsed }
  | loadNotDone (state : AsyncState Event) (version : ℕ) (hpc : state.worker = .checkingDone)
      (hread : visibility.Reads 0 state.producerDone version false) :
      AsyncStep visibility runtime config mode base payloadBytes state (.loadProducerDone false)
        { state with worker := .popping }
  | process (state : AsyncState Event) (value : PoolPointer) (scratch : Scratch Event)
      (added sample : BitVec 64) (hpc : state.worker = .processing value)
      (hitem : processItem runtime (pool base value) mode state.scratch payloadBytes =
        .ok (added, scratch)) :
      AsyncStep visibility runtime config mode base payloadBytes state (.process value)
        (state.afterItem scratch added sample)
  | producerReady (state : AsyncState Event) (hpc : state.producer = .starting) :
      AsyncStep visibility runtime config mode base payloadBytes state .other
        { state with ready := state.ready - 1, producer := .waiting }
  | producerSpin (state : AsyncState Event) (version : ℕ) (hpc : state.producer = .waiting)
      (hread : visibility.Reads 0 state.start version false) :
      AsyncStep visibility runtime config mode base payloadBytes state .other state
  | producerStart (state : AsyncState Event) (version : ℕ) (hpc : state.producer = .waiting)
      (hread : visibility.Reads 0 state.start version true) :
      AsyncStep visibility runtime config mode base payloadBytes state .other
        { state with producer := .running }
  | push (state : AsyncState Event) (event : RingEvent) (ring : Ring queueCapacity PoolPointer)
      (sample : BitVec 64) (hpc : state.producer = .running)
      (hi : state.i < config.iterations) (hparty : isPush event = true)
      (hvalue : ∀ value, event = .pushLoadHead value → value = poolIndex state.i)
      (hring : SpscPointerRing.Step visibility state.ring event ring) :
      AsyncStep visibility runtime config mode base payloadBytes state (.ring event)
        (state.afterPush event ring sample)
  | storeDone (state : AsyncState Event) (elapsed : BitVec 64)
      (hpc : state.producer = .running) (hidle : state.ring.push = .idle)
      (hi : ¬ state.i < config.iterations) :
      AsyncStep visibility runtime config mode base payloadBytes state .storeProducerDone
        { state with
          producer := .exited
          producerDone := state.producerDone.store true
          result := { state.result with hotElapsedNs := elapsed } }
  | mainReady (state : AsyncState Event) (hpc : state.main = .waitReady)
      (hready : state.ready = 0) :
      AsyncStep visibility runtime config mode base payloadBytes state .other
        { state with main := .storeStart }
  | mainStart (state : AsyncState Event) (hpc : state.main = .storeStart) :
      AsyncStep visibility runtime config mode base payloadBytes state .other
        { state with main := .joinProducer, start := state.start.store true }
  | mainJoinProducer (state : AsyncState Event) (hpc : state.main = .joinProducer)
      (hjoin : state.producer = .exited) :
      AsyncStep visibility runtime config mode base payloadBytes state .other
        { state with main := .joinWorker }
  | mainJoinWorker (state : AsyncState Event) (hpc : state.main = .joinWorker)
      (hjoin : state.worker = .exited) :
      AsyncStep visibility runtime config mode base payloadBytes state .other
        { state with
          main := .returned
          result := { state.result with
            completed := state.workerCompleted
            workerWallNs := state.workerWallNs
            checksum := state.workerChecksum } }

def ringEvent : Label → Option RingEvent
  | .ring event => some event
  | _ => none

def processedEvent : Label → Option PoolPointer
  | .process value => some value
  | _ => none

end Threads

end ProtobufKafkaBench.AsyncPipeline

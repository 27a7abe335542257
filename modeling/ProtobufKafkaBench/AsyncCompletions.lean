import ProtobufKafkaBench.AsyncOutcomes
import ProtobufKafkaBench.Completions
import ProtobufKafkaBench.CountedLoops

/-!
`run_async` can always be brought to its end. The threads spin on the start flag,
on an empty ring and on `producer_done`, so a schedule can go on for as long as it
likes; but from every state that any schedule reaches, the producer can finish its
pushes, the worker can take what is left and leave its loop, and the main thread can
join both. A measure counts the steps of that continuation.
-/
namespace ProtobufKafkaBench.AsyncPipeline

open Transitions AtomicCells ByteBuffers WireFormat MarketEvents SpscPointerRing Completions
open CountedLoops (toNat_succ)

variable {Event : Type} [Traits Event] {visibility : Visibility} {runtime : Runtime}
  {config : Config} {mode : Mode} {base : Event} {payloadBytes : ℕ}
  {history : List (AsyncState Event × Label)} {state state' : AsyncState Event} {label : Label}

section Remaining

def MainThread.remaining : MainThread → ℕ
  | .waitReady => 4
  | .storeStart => 3
  | .joinProducer => 2
  | .joinWorker => 1
  | .returned => 0

def pushRemaining : TryPush PoolPointer → ℕ
  | .idle => 4
  | .loadedHead _ _ => 3
  | .hasRoom _ _ => 2
  | .wroteEntry _ _ => 1

def popRemaining : Pop PoolPointer → ℕ
  | .idle => 7
  | .loadedTail _ => 6
  | .hasValue _ => 5
  | .readEntry _ _ => 4

/-- A push that is still to come also leaves a value behind for the worker. -/
def AsyncState.producerRemaining (config : Config) (state : AsyncState Event) : ℕ :=
  match state.producer with
  | .starting => 20 * config.iterations.toNat + 6
  | .waiting => 20 * config.iterations.toNat + 5
  | .running => 20 * (config.iterations.toNat - state.i.toNat) + pushRemaining state.ring.push
  | .exited => 0

def AsyncState.workerRemaining (state : AsyncState Event) : ℕ :=
  match state.worker with
  | .starting => 9
  | .waiting => 8
  | .popping => popRemaining state.ring.pop
  | .checkingDone => 1
  | .processing _ => 9
  | .exited => 0

/-- The values in the ring, by its counters. -/
def AsyncState.queued (state : AsyncState Event) : ℕ :=
  (state.ring.head.current - state.ring.tail.current).toNat

def AsyncState.remaining (config : Config) (state : AsyncState Event) : ℕ :=
  state.main.remaining + state.producerRemaining config + state.workerRemaining +
    8 * state.queued

/-- What the threads have told each other by their flags, and where a call may be open. -/
structure Handshake (config : Config) (state : AsyncState Event) : Prop where
  ready : state.ready = (if state.worker = .starting then 1 else 0) +
    (if state.producer = .starting then 1 else 0)
  started : state.main = .waitReady ∨ state.main = .storeStart ∨ state.start.current = true
  flagged : state.producer = .exited → state.producerDone.current = true
  pushing : state.ring.push ≠ .idle → state.producer = .running ∧ state.i < config.iterations
  untouched : state.producer = .starting ∨ state.producer = .waiting → state.i = 0

theorem handshake_initial (config : Config) (base : Event) :
    Handshake config (AsyncState.initial base) where
  ready := rfl
  started := Or.inl rfl
  flagged h := by cases h
  pushing h := absurd rfl h
  untouched _ := rfl

theorem handshake_push {event : RingEvent} {ring : Ring queueCapacity PoolPointer}
    {sample : BitVec 64} (h : Handshake config state) (hpc : state.producer = .running)
    (hi : state.i < config.iterations)
    (hring : SpscPointerRing.Step visibility state.ring event ring) :
    Handshake config (state.afterPush event ring sample) where
  ready := h.ready
  started := h.started
  flagged hexited := by
    change state.producer = .exited at hexited
    rw [hpc] at hexited
    cases hexited
  pushing hopen := by
    refine ⟨hpc, ?_⟩
    -- the counter moves only with the steps that close the call
    cases hring with
    | pushFull | pushStore => exact absurd rfl hopen
    | _ => exact hi
  untouched hearly := by
    change state.producer = .starting ∨ state.producer = .waiting at hearly
    rw [hpc] at hearly
    rcases hearly with hearly | hearly <;> cases hearly

theorem afterPop_not_starting (state : AsyncState Event) (event : RingEvent)
    (ring : Ring queueCapacity PoolPointer) :
    (state.afterPop event ring).worker ≠ .starting := by
  unfold AsyncState.afterPop
  dsimp only
  split <;> exact nofun

theorem handshake_step (h : Handshake config state)
    (hstep : AsyncStep visibility runtime config mode base payloadBytes state label state') :
    Handshake config state' := by
  obtain ⟨hready, hstarted, hflagged, hpushing, huntouched⟩ := h
  cases hstep with
  | workerReady hpc => exact ⟨by simp [hready, hpc], hstarted, hflagged, hpushing, huntouched⟩
  | workerSpin version hpc hread | producerSpin version hpc hread =>
    exact ⟨hready, hstarted, hflagged, hpushing, huntouched⟩
  | workerStart version hpc hread | loadDone version elapsed hpc hread
  | loadNotDone version hpc hread =>
    exact ⟨by simpa [hpc] using hready, hstarted, hflagged, hpushing, huntouched⟩
  | pop event ring hpc hparty hring =>
    have hframe := pop_frame hring hparty
    refine ⟨?_, hstarted, hflagged, ?_, huntouched⟩
    · have hworker := afterPop_not_starting state event ring
      rw [if_neg hworker]
      rwa [if_neg (by simp [hpc])] at hready
    · intro hopen
      refine hpushing ?_
      rwa [← hframe.1]
  | process value scratch added sample hpc hitem =>
    rw [if_neg (by simp [hpc])] at hready
    exact ⟨hready, hstarted, hflagged, hpushing, huntouched⟩
  | producerReady hpc =>
    refine ⟨by simp [hready, hpc], hstarted, nofun, fun hopen => ?_,
      fun _ => huntouched (Or.inl hpc)⟩
    have hrunning := (hpushing hopen).1
    rw [hpc] at hrunning
    cases hrunning
  | producerStart version hpc hread =>
    refine ⟨by simpa [hpc] using hready, hstarted, nofun, fun hopen => ?_, by simp⟩
    have hrunning := (hpushing hopen).1
    rw [hpc] at hrunning
    cases hrunning
  | push event ring sample hpc hi hparty hvalue hring =>
    exact handshake_push ⟨hready, hstarted, hflagged, hpushing, huntouched⟩ hpc hi hring
  | storeDone elapsed hpc hidle hi =>
    exact ⟨by simpa [hpc] using hready, hstarted, fun _ => rfl, fun hopen => absurd hidle hopen,
      by simp⟩
  | mainReady hpc hzero =>
    exact ⟨hready, Or.inr (Or.inl rfl), hflagged, hpushing, huntouched⟩
  | mainStart hpc => exact ⟨hready, Or.inr (Or.inr rfl), hflagged, hpushing, huntouched⟩
  | mainJoinProducer hpc hjoin | mainJoinWorker hpc hjoin =>
    refine ⟨hready, Or.inr (Or.inr ?_), hflagged, hpushing, huntouched⟩
    simpa [hpc] using hstarted

theorem run_handshake
    (run : Run (AsyncStep visibility runtime config mode base payloadBytes)
      (AsyncState.initial base) history state) : Handshake config state :=
  Run.invariant (fun _ s => Handshake config s) (handshake_initial config base)
    (fun _ _ _ _ _ h hstep => handshake_step h hstep) run

end Remaining

section Moves

variable {taken : ℕ} {queue : List PoolPointer}

/-- A step that brings the pipeline nearer to its end. -/
def Advances (visibility : Visibility) (runtime : Runtime) (config : Config) (mode : Mode)
    (base : Event) (payloadBytes : ℕ) (state : AsyncState Event) : Prop :=
  ∃ label after, AsyncStep visibility runtime config mode base payloadBytes state label after ∧
    after.remaining config < state.remaining config

theorem next_i (hi : state.i < config.iterations) : (state.i + 1).toNat = state.i.toNat + 1 := by
  have hlt := BitVec.lt_def.mp hi
  have hbound := config.iterations.isLt
  exact toNat_succ (by omega)

/-- The producer in its loop can always go on, with the newest `tail_` if it loads it. -/
theorem producer_advances (visibility : Visibility) (runtime : Runtime) (mode : Mode)
    (base : Event) (payloadBytes : ℕ) (h : Handshake config state)
    (hrep : Represents state.ring taken queue) (hpc : state.producer = .running) :
    Advances visibility runtime config mode base payloadBytes state := by
  have hseen : state.ring.seenTail ≤ state.ring.tail.version := by
    rw [hrep.tail_counts.version]
    exact hrep.seenTail_le
  have hread := visibility.reads_current hseen
  cases hpush : state.ring.push with
  | idle =>
    by_cases hi : state.i < config.iterations
    · refine ⟨_, _, .push state (.pushLoadHead (poolIndex state.i)) _ 0 hpc hi rfl
        (by intro v hv; cases hv; rfl) (.pushLoadHead _ _ hpush), ?_⟩
      simp only [AsyncState.remaining, AsyncState.producerRemaining, AsyncState.workerRemaining,
        AsyncState.queued, AsyncState.afterPush, hpc, hpush, pushRemaining]
      omega
    · refine ⟨_, _, .storeDone state 0 hpc hpush hi, ?_⟩
      simp only [AsyncState.remaining, AsyncState.producerRemaining, AsyncState.workerRemaining,
        AsyncState.queued, hpc, hpush, pushRemaining]
      omega
  | loadedHead value head =>
    have hi := (h.pushing (by simp [hpush])).2
    have hnext := next_i hi
    have hlt := BitVec.lt_def.mp hi
    by_cases hfull : head - state.ring.tail.current = queueCapacity.word
    · refine ⟨_, _, .push state (.pushFull value) _ 0 hpc hi rfl (by intro v hv; cases hv)
        (.pushFull _ value head _ _ hpush hread hfull), ?_⟩
      simp only [AsyncState.remaining, AsyncState.producerRemaining, AsyncState.workerRemaining,
        AsyncState.queued, AsyncState.afterPush, hpc, hpush, pushRemaining, hnext]
      omega
    · refine ⟨_, _, .push state .pushRoom _ 0 hpc hi rfl (by intro v hv; cases hv)
        (.pushRoom _ value head _ _ hpush hread hfull), ?_⟩
      simp only [AsyncState.remaining, AsyncState.producerRemaining, AsyncState.workerRemaining,
        AsyncState.queued, AsyncState.afterPush, hpc, hpush, pushRemaining]
      omega
  | hasRoom value head =>
    have hi := (h.pushing (by simp [hpush])).2
    refine ⟨_, _, .push state _ _ 0 hpc hi rfl (by intro v hv; cases hv)
      (.pushWrite _ value head hpush), ?_⟩
    simp only [AsyncState.remaining, AsyncState.producerRemaining, AsyncState.workerRemaining,
      AsyncState.queued, AsyncState.afterPush, Ring.writeEntry, hpc, hpush, pushRemaining]
    omega
  | wroteEntry value head =>
    have hi := (h.pushing (by simp [hpush])).2
    have hnext := next_i hi
    have hlt := BitVec.lt_def.mp hi
    -- the stored value is one more for the worker
    have hbefore := hrep.counter_difference
    have hafter := (represents_pushStore hrep hpush).counter_difference
    rw [List.length_append, List.length_singleton] at hafter
    refine ⟨_, _, .push state (.pushStore value) _ 0 hpc hi rfl (by intro v hv; cases hv)
      (.pushStore _ value head hpush), ?_⟩
    simp only [AsyncState.remaining, AsyncState.producerRemaining, AsyncState.workerRemaining,
      AsyncState.queued, AsyncState.afterPush, hpc, hpush, pushRemaining, hnext] at hafter ⊢
    omega

/-- Processing never faults, whether or not the library serializes. -/
theorem processItem_total (runtime : Runtime) (base : Event) (mode : Mode)
    (scratch : Scratch Event) :
    ∃ added after, processItem runtime base mode scratch (payloadSize base) =
      .ok (added, after) := by
  unfold processItem
  split
  · exact ⟨_, _, rfl⟩
  by_cases hproto : doesProto mode = true
  · obtain ⟨output, hrun, -⟩ := processEvent_serializes runtime base base scratch hproto
    rw [hrun]
    split
    · obtain ⟨line, hpipe⟩ := processPipe_ok base mode
        { scratch with message := Traits.populate base scratch.message, output }
        (payloadSize base + 6)
      exact ⟨_, _, hpipe⟩
    · exact ⟨_, _, rfl⟩
  · unfold processEvent
    rw [if_neg hproto]
    obtain ⟨line, hpipe⟩ := processPipe_ok base mode scratch 0
    exact ⟨_, _, hpipe⟩

theorem popRemaining_le (pop : Pop PoolPointer) : popRemaining pop ≤ 7 := by
  cases pop <;> simp [popRemaining]

/-- With the producer gone, the worker can take what is queued and then leave. -/
theorem worker_advances (visibility : Visibility) (runtime : Runtime) (config : Config)
    (mode : Mode) (base : Event) (hrep : Represents state.ring taken queue)
    (hdone : state.producerDone.current = true) (hstart : state.start.current = true)
    (hready : state.worker ≠ .starting) (hleft : state.worker ≠ .exited) :
    Advances visibility runtime config mode base (payloadSize base) state := by
  have hseen : state.ring.seenHead ≤ state.ring.head.version := by
    rw [hrep.head_counts.version]
    exact hrep.seenHead_le
  have hread := visibility.reads_current hseen
  cases hpc : state.worker with
  | starting => exact absurd hpc hready
  | exited => exact absurd hpc hleft
  | waiting =>
    have hreadStart : visibility.Reads 0 state.start _ _ := visibility.reads_current (Nat.zero_le _)
    rw [hstart] at hreadStart
    have hpop := popRemaining_le state.ring.pop
    refine ⟨_, _, .workerStart state _ hpc hreadStart, ?_⟩
    simp only [AsyncState.remaining, AsyncState.producerRemaining, AsyncState.workerRemaining,
      AsyncState.queued, hpc]
    omega
  | checkingDone =>
    have hreadDone : visibility.Reads 0 state.producerDone _ _ :=
      visibility.reads_current (Nat.zero_le _)
    rw [hdone] at hreadDone
    refine ⟨_, _, .loadDone state _ 0 hpc hreadDone, ?_⟩
    simp only [AsyncState.remaining, AsyncState.producerRemaining, AsyncState.workerRemaining,
      AsyncState.queued, hpc]
    omega
  | processing value =>
    obtain ⟨added, after, hitem⟩ := processItem_total runtime (pool base value) mode state.scratch
    have hpop := popRemaining_le state.ring.pop
    refine ⟨_, _, .process state value after added 0 hpc hitem, ?_⟩
    simp only [AsyncState.remaining, AsyncState.producerRemaining, AsyncState.workerRemaining,
      AsyncState.queued, AsyncState.afterItem, hpc]
    omega
  | popping =>
    cases hpop : state.ring.pop with
    | idle =>
      refine ⟨_, _, .pop state .popLoadTail _ hpc rfl (.popLoadTail _ hpop), ?_⟩
      simp only [AsyncState.remaining, AsyncState.producerRemaining, AsyncState.workerRemaining,
        AsyncState.queued, AsyncState.afterPop, hpc, hpop, popRemaining]
      omega
    | loadedTail tail =>
      by_cases hempty : tail = state.ring.head.current
      · refine ⟨_, _, .pop state .popEmpty _ hpc rfl (.popEmpty _ tail _ _ hpop hread hempty), ?_⟩
        simp only [AsyncState.remaining, AsyncState.producerRemaining,
          AsyncState.workerRemaining, AsyncState.queued, AsyncState.afterPop, hpc, hpop,
          popRemaining]
        omega
      · refine ⟨_, _, .pop state .popFound _ hpc rfl (.popFound _ tail _ _ hpop hread hempty), ?_⟩
        simp only [AsyncState.remaining, AsyncState.producerRemaining,
          AsyncState.workerRemaining, AsyncState.queued, AsyncState.afterPop, hpc, hpop,
          popRemaining]
        omega
    | hasValue tail =>
      refine ⟨_, _, .pop state _ _ hpc rfl (.popRead _ tail hpop), ?_⟩
      simp only [AsyncState.remaining, AsyncState.producerRemaining, AsyncState.workerRemaining,
        AsyncState.queued, AsyncState.afterPop, hpc, hpop, popRemaining]
      omega
    | readEntry value tail =>
      -- the popped value is one less in the ring
      have hbefore := hrep.counter_difference
      have hafter := (represents_popStore hrep hpop).counter_difference
      obtain ⟨first, rest, rfl, rfl⟩ := hrep.pop_value hpop
      rw [List.tail_cons] at hafter
      rw [List.length_cons] at hbefore
      refine ⟨_, _, .pop state (.popStore (some first)) _ hpc rfl (.popStore _ _ tail hpop), ?_⟩
      simp only [AsyncState.remaining, AsyncState.producerRemaining, AsyncState.workerRemaining,
        AsyncState.queued, AsyncState.afterPop, hpc, hpop, popRemaining] at hafter ⊢
      omega

/-- Every thread can be brought to the top of its loop. -/
theorem startup_advances (visibility : Visibility) (runtime : Runtime) (config : Config)
    (mode : Mode) (base : Event) (payloadBytes : ℕ) (h : Handshake config state)
    (hearly : state.worker = .starting ∨ state.producer = .starting ∨
      state.main = .waitReady ∨ state.main = .storeStart ∨ state.producer = .waiting) :
    Advances visibility runtime config mode base payloadBytes state := by
  by_cases hworker : state.worker = .starting
  · refine ⟨_, _, .workerReady state hworker, ?_⟩
    simp only [AsyncState.remaining, AsyncState.producerRemaining, AsyncState.workerRemaining,
      AsyncState.queued, hworker]
    omega
  by_cases hproducer : state.producer = .starting
  · refine ⟨_, _, .producerReady state hproducer, ?_⟩
    simp only [AsyncState.remaining, AsyncState.producerRemaining, AsyncState.workerRemaining,
      AsyncState.queued, hproducer]
    omega
  by_cases hwait : state.main = .waitReady
  · have hready := h.ready
    rw [if_neg hworker, if_neg hproducer] at hready
    refine ⟨_, _, .mainReady state hwait hready, ?_⟩
    simp only [AsyncState.remaining, AsyncState.producerRemaining, AsyncState.workerRemaining,
      AsyncState.queued, hwait, MainThread.remaining]
    omega
  by_cases hstore : state.main = .storeStart
  · refine ⟨_, _, .mainStart state hstore, ?_⟩
    simp only [AsyncState.remaining, AsyncState.producerRemaining, AsyncState.workerRemaining,
      AsyncState.queued, hstore, MainThread.remaining]
    omega
  have hwaiting : state.producer = .waiting := by tauto
  have hstart : state.start.current = true := by simpa [hwait, hstore] using h.started
  have hread : visibility.Reads 0 state.start _ _ := visibility.reads_current (Nat.zero_le _)
  rw [hstart] at hread
  have hpush : state.ring.push = .idle := by
    by_contra hopen
    have hrunning := (h.pushing hopen).1
    rw [hwaiting] at hrunning
    cases hrunning
  refine ⟨_, _, .producerStart state _ hwaiting hread, ?_⟩
  simp only [AsyncState.remaining, AsyncState.producerRemaining, AsyncState.workerRemaining,
    AsyncState.queued, hwaiting, hpush, pushRemaining, h.untouched (Or.inr hwaiting)]
  omega

end Moves

section Completion

/-- A schedule may let a thread spin for as long as it likes. -/
theorem spinning_run (visibility : Visibility) (runtime : Runtime) (config : Config) (mode : Mode)
    (base : Event) (payloadBytes count : ℕ) :
    ∃ (history : List (AsyncState Event × Label)) (state : AsyncState Event),
      Run (AsyncStep visibility runtime config mode base payloadBytes)
        (AsyncState.initial base) history state ∧
      count ≤ history.length ∧ state.worker = .waiting ∧ state.start = AtomicCell.init false := by
  induction count with
  | zero =>
    exact ⟨_, _, Run.nil.snoc (.workerReady _ rfl), Nat.zero_le _, rfl, rfl⟩
  | succ count ih =>
    obtain ⟨history, state, run, hlength, hworker, hstart⟩ := ih
    have hread : visibility.Reads 0 state.start 0 false := by
      rw [hstart]
      exact visibility.reads_current (Nat.zero_le _)
    refine ⟨_, state, run.snoc (.workerSpin state 0 hworker hread), ?_, hworker, hstart⟩
    rw [List.length_append, List.length_singleton]
    omega

/-- No state that a run reaches is in the way of the end: whatever the schedule so far, and
whether or not loads see the newest stores, `run_async` can be brought to return. -/
theorem runAsync_can_return
    (run : Run (AsyncStep visibility runtime config mode base (payloadSize base))
      (AsyncState.initial base) history state) :
    CanReach (AsyncStep visibility runtime config mode base (payloadSize base))
      (fun state => state.main = .returned) state := by
  refine canReach_of_measure (AsyncState.remaining config) ?_ run
  intro history state run
  have hhandshake := run_handshake run
  obtain ⟨queue, hrep, -⟩ := run_conserves run
  by_cases hearly : state.worker = .starting ∨ state.producer = .starting ∨
      state.main = .waitReady ∨ state.main = .storeStart ∨ state.producer = .waiting
  · exact Or.inr (startup_advances _ _ _ _ _ _ hhandshake hearly)
  push Not at hearly
  obtain ⟨hworker, hstarting, hwait, hstore, hwaiting⟩ := hearly
  have hstart : state.start.current = true := by simpa [hwait, hstore] using hhandshake.started
  cases hproducer : state.producer with
  | starting => exact absurd hproducer hstarting
  | waiting => exact absurd hproducer hwaiting
  | running => exact Or.inr (producer_advances _ _ _ _ _ hhandshake hrep hproducer)
  | exited =>
    have hdone := hhandshake.flagged hproducer
    by_cases hleft : state.worker = .exited
    · cases hmain : state.main with
      | waitReady => exact absurd hmain hwait
      | storeStart => exact absurd hmain hstore
      | returned => exact Or.inl rfl
      | joinProducer =>
        refine Or.inr ⟨_, _, .mainJoinProducer state hmain hproducer, ?_⟩
        simp only [AsyncState.remaining, AsyncState.producerRemaining,
          AsyncState.workerRemaining, AsyncState.queued, hmain, MainThread.remaining]
        omega
      | joinWorker =>
        refine Or.inr ⟨_, _, .mainJoinWorker state hmain hleft, ?_⟩
        simp only [AsyncState.remaining, AsyncState.producerRemaining,
          AsyncState.workerRemaining, AsyncState.queued, hmain, MainThread.remaining]
        omega
    · exact Or.inr (worker_advances _ _ _ _ _ hrep hdone hstart hworker hleft)

/-- From the middle of a run, with one of two events processed and the other in the ring. -/
theorem runAsync_can_return_midway :
    ∃ (history : List (AsyncState WideEvent × Label)) (state : AsyncState WideEvent),
      Run (AsyncStep .acquireRelease .standard {} .asyncBoth makeWideEvent
        (payloadSize makeWideEvent)) (AsyncState.initial makeWideEvent) history state ∧
      state.i = 2 ∧ state.workerCompleted = 1 ∧ state.main = .joinProducer ∧
      CanReach (AsyncStep .acquireRelease .standard {} .asyncBoth makeWideEvent
          (payloadSize makeWideEvent))
        (fun state => state.main = .returned) state := by
  have hcapacity : ({} : Config).iterations.toNat ≤ kQueueCapacity :=
    (parseArgs_ok parseArgs_nil).2.2
  have hmillion : ({} : Config).iterations.toNat = 1000000 := rfl
  have started := @reached_zero WideEvent _ .acquireRelease .standard {} .asyncBoth makeWideEvent
    (payloadSize makeWideEvent)
  have pushed := reached_push rfl (by omega) (Nat.le_refl 0) hcapacity started
  have twice := reached_push rfl (by omega) (Nat.zero_le 1) hcapacity pushed
  obtain ⟨history, state, run, hloop⟩ :=
    reached_take Runtime.standard_succeeds (by omega) Nat.zero_lt_two hcapacity twice
  exact ⟨history, state, run, hloop.i, hloop.completed, hloop.main, runAsync_can_return run⟩

end Completion

end ProtobufKafkaBench.AsyncPipeline

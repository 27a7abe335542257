import ProtobufKafkaBench.RunAsync

/-!
The bookkeeping of `run_async`, thread by thread, along any schedule. The
producer's counters follow the pushes it attempted, the worker's follow the
values it took out of the ring, and the main thread copies the worker's results
once both threads have left their loops.
-/
namespace ProtobufKafkaBench.AsyncPipeline

open Transitions AtomicCells ByteBuffers WireFormat MarketEvents SpscPointerRing

section RingEvents

/-- The values whose `try_push` returned, with either answer, in order. -/
def attempted (events : List RingEvent) : List PoolPointer :=
  events.filterMap fun event => match event with
    | .pushStore value | .pushFull value => some value
    | _ => none

/-- The values whose `try_push` returned false, in order. -/
def refused (events : List RingEvent) : List PoolPointer :=
  events.filterMap fun event => match event with
    | .pushFull value => some value
    | _ => none

theorem attempted_snoc (events : List RingEvent) (event : RingEvent) :
    attempted (events ++ [event]) = attempted events ++ attempted [event] := by
  simp [attempted]

theorem refused_snoc (events : List RingEvent) (event : RingEvent) :
    refused (events ++ [event]) = refused events ++ refused [event] := by simp [refused]

theorem attempted_length (events : List RingEvent) :
    (attempted events).length = (pushed events).length + (refused events).length := by
  induction events with
  | nil => rfl
  | cons event rest ih =>
    have hevent : (attempted [event]).length =
        (pushed [event]).length + (refused [event]).length := by cases event <;> rfl
    rw [show event :: rest = [event] ++ rest by rfl]
    simp only [attempted, pushed, refused, List.filterMap_append, List.length_append] at *
    omega

/-- The argument of an unfinished `try_push`. -/
def calling : TryPush PoolPointer → Option PoolPointer
  | .idle => none
  | .loadedHead value _ | .hasRoom value _ | .wroteEntry value _ => some value

variable {visibility : Visibility} {ring ring' : Ring queueCapacity PoolPointer}
  {event : RingEvent}

/-- A step of `pop` leaves the producer's side of the ring alone. -/
theorem pop_frame (hring : SpscPointerRing.Step visibility ring event ring')
    (hparty : isPush event = false) :
    ring'.push = ring.push ∧ pushed [event] = [] ∧ attempted [event] = [] ∧
      refused [event] = [] := by
  cases hring with
  | pushLoadHead | pushFull | pushRoom | pushWrite | pushStore => simp [isPush] at hparty
  | popLoadTail | popEmpty | popFound | popRead | popStore => exact ⟨rfl, rfl, rfl, rfl⟩

/-- A step of `try_push` leaves the worker's side of the ring alone. -/
theorem push_frame (hring : SpscPointerRing.Step visibility ring event ring')
    (hparty : isPush event = true) :
    ring'.pop = ring.pop ∧ ring'.seenHead = ring.seenHead ∧ popped [event] = [] := by
  cases hring with
  | pushLoadHead | pushFull | pushRoom | pushWrite | pushStore => exact ⟨rfl, rfl, rfl⟩
  | popLoadTail | popEmpty | popFound | popRead | popStore => simp [isPush] at hparty

end RingEvents

section Accounts

variable {Event : Type} [Traits Event] {visibility : Visibility} {runtime : Runtime}
  {config : Config} {mode : Mode} {base : Event} {payloadBytes : ℕ}
  {history : List (AsyncState Event × Label)} {state state' : AsyncState Event}

/-- Without the threads around it, a run of the pipeline is a run of its ring. -/
theorem ring_run
    (run : Run (AsyncStep visibility runtime config mode base payloadBytes)
      (AsyncState.initial base) history state) :
    ∃ ringHistory, Run (SpscPointerRing.Step visibility)
        (Ring.initial queueCapacity PoolPointer) ringHistory state.ring ∧
      labels ringHistory = visible ringEvent history := by
  have hsimulated : ∃ ringHistory ring, Run (SpscPointerRing.Step visibility)
      (Ring.initial queueCapacity PoolPointer) ringHistory ring ∧
      labels ringHistory = visible ringEvent history ∧ state.ring = ring := by
    refine Run.simulate (fun s ring => s.ring = ring) ringEvent rfl ?_ run
    intro h s label t ring _ hrelated hstep
    subst hrelated
    refine ⟨t.ring, ?_, rfl⟩
    cases hstep with
    | pop event ring' hpc hparty hring => exact hring
    | push event ring' sample hpc hi hparty hvalue hring => exact hring
    | _ => rfl
  obtain ⟨ringHistory, ring, hrun, hlabels, rfl⟩ := hsimulated
  exact ⟨ringHistory, hrun, hlabels⟩

/-- What the ring's own runs guarantee, in terms of the pipeline's history. -/
theorem ring_represents
    (run : Run (AsyncStep visibility runtime config mode base payloadBytes)
      (AsyncState.initial base) history state) :
    ∃ queue, Represents state.ring (popped (visible ringEvent history)).length queue ∧
      (pushed (visible ringEvent history)).map some =
        popped (visible ringEvent history) ++ queue.map some := by
  obtain ⟨ringHistory, hrun, hlabels⟩ := ring_run run
  obtain ⟨queue, hrep, hconserved, -⟩ := run_represents hrun
  rw [hlabels] at hrep hconserved
  exact ⟨queue, hrep, hconserved⟩

/-- The producer's counters after the ring steps `events`. -/
structure ProducerAccounts (config : Config) (events : List RingEvent)
    (state : AsyncState Event) : Prop where
  i_eq : state.i = BitVec.ofNat 64 (attempted events).length
  attempted_le : (attempted events).length ≤ config.iterations.toNat
  attempted_eq : attempted events =
    (List.range (attempted events).length).map fun k => poolIndex (BitVec.ofNat 64 k)
  hot_length : state.result.hotSamples.length = (pushed events).length
  dropped_eq : state.result.dropped = BitVec.ofNat 64 (refused events).length
  argument : ∀ value, calling state.ring.push = some value →
    value = poolIndex state.i ∧ state.i < config.iterations
  exited : state.producer = .exited →
    calling state.ring.push = none ∧ (attempted events).length = config.iterations.toNat
  flag : state.producerDone.order = [false] ∨
    state.producer = .exited ∧ state.producerDone.order = [false, true]

theorem producer_initial (config : Config) (base : Event) :
    ProducerAccounts config [] (AsyncState.initial base) where
  i_eq := rfl
  attempted_le := Nat.zero_le _
  attempted_eq := rfl
  hot_length := rfl
  dropped_eq := rfl
  argument value h := by simp [AsyncState.initial, Ring.initial, calling] at h
  exited h := by simp [AsyncState.initial] at h
  flag := Or.inl rfl

variable {events : List RingEvent}

/-- One more returned `try_push` for the pointer of the current `i`. -/
theorem ProducerAccounts.attempt (h : ProducerAccounts config events state)
    {value : PoolPointer} (hcalling : calling state.ring.push = some value) :
    state.i + 1 = BitVec.ofNat 64 (attempted events ++ [value]).length ∧
      (attempted events ++ [value]).length ≤ config.iterations.toNat ∧
      attempted events ++ [value] = (List.range (attempted events ++ [value]).length).map
        fun k => poolIndex (BitVec.ofNat 64 k) := by
  obtain ⟨rfl, hi⟩ := h.argument value hcalling
  have hlt := config.iterations.isLt
  have hle := h.attempted_le
  rw [h.i_eq, BitVec.lt_def, BitVec.toNat_ofNat, Nat.mod_eq_of_lt (by omega)] at hi
  rw [List.length_append, List.length_singleton]
  refine ⟨?_, hi, ?_⟩
  · rw [h.i_eq, BitVec.ofNat_add]
    rfl
  · rw [List.range_succ, List.map_append, ← h.attempted_eq, h.i_eq]
    rfl

/-- A step at which no `try_push` returns keeps the producer's counters. -/
theorem ProducerAccounts.silent (h : ProducerAccounts config events state) {event : RingEvent}
    (hsilent : attempted [event] = []) (hi : state'.i = state.i)
    (hresult : state'.result = state.result) (hproducer : state'.producer = state.producer)
    (hflag : state'.producerDone = state.producerDone)
    (hargument : ∀ value, calling state'.ring.push = some value →
      value = poolIndex state.i ∧ state.i < config.iterations)
    (hexited : state.producer = .exited → calling state'.ring.push = none) :
    ProducerAccounts config (events ++ [event]) state' := by
  have hlength := attempted_length [event]
  rw [hsilent, List.length_nil] at hlength
  have hpushed : pushed [event] = [] := List.length_eq_zero_iff.mp (by omega)
  have hrefused : refused [event] = [] := List.length_eq_zero_iff.mp (by omega)
  have hattempted : attempted (events ++ [event]) = attempted events := by
    rw [attempted_snoc, hsilent, List.append_nil]
  exact {
    i_eq := by rw [hattempted, hi]; exact h.i_eq
    attempted_le := by rw [hattempted]; exact h.attempted_le
    attempted_eq := by rw [hattempted]; exact h.attempted_eq
    hot_length := by rw [hresult, pushed_snoc, hpushed, List.append_nil]; exact h.hot_length
    dropped_eq := by rw [hresult, refused_snoc, hrefused, List.append_nil]; exact h.dropped_eq
    argument := by rw [hi]; exact hargument
    exited := by
      intro hexit
      rw [hproducer] at hexit
      rw [hattempted]
      exact ⟨hexited hexit, (h.exited hexit).2⟩
    flag := by rw [hproducer, hflag]; exact h.flag }

/-- A step of the ring inside `try_push` keeps the producer's accounts. -/
theorem producer_push {event : RingEvent} {ring : Ring queueCapacity PoolPointer}
    {sample : BitVec 64} (h : ProducerAccounts config events state)
    (hpc : state.producer = .running) (hi : state.i < config.iterations)
    (hparty : isPush event = true)
    (hvalue : ∀ value, event = .pushLoadHead value → value = poolIndex state.i)
    (hring : SpscPointerRing.Step visibility state.ring event ring) :
    ProducerAccounts config (events ++ [event]) (state.afterPush event ring sample) := by
  have hrunning : ∀ {P : Prop}, state.producer = .exited → P := by
    intro P hexited
    rw [hpc] at hexited
    cases hexited
  cases hring with
  | popLoadTail | popEmpty | popFound | popRead | popStore => simp [isPush] at hparty
  | pushLoadHead value hidle =>
    refine h.silent rfl rfl rfl rfl rfl ?_ hrunning
    intro v hv
    obtain rfl := Option.some.inj hv
    exact ⟨hvalue value rfl, hi⟩
  | pushRoom value head tail version hloaded hread hroom =>
    refine h.silent rfl rfl rfl rfl rfl ?_ hrunning
    intro v hv
    exact h.argument v (by rw [hloaded]; exact hv)
  | pushWrite value head hroom =>
    refine h.silent rfl rfl rfl rfl rfl ?_ hrunning
    intro v hv
    exact h.argument v (by rw [hroom]; exact hv)
  | pushFull value head tail version hloaded hread hfull =>
    have hcalling : calling state.ring.push = some value := by
      rw [hloaded]
      rfl
    obtain ⟨h1, h2, h3⟩ := h.attempt hcalling
    have hattempted : attempted (events ++ [.pushFull value]) = attempted events ++ [value] :=
      attempted_snoc events _
    exact {
      i_eq := by rw [hattempted]; exact h1
      attempted_le := by rw [hattempted]; exact h2
      attempted_eq := by rw [hattempted]; exact h3
      hot_length := by
        rw [pushed_snoc, List.length_append]
        exact h.hot_length
      dropped_eq := by
        rw [refused_snoc, List.length_append, BitVec.ofNat_add, ← h.dropped_eq]
        rfl
      argument := by
        intro v hv
        cases hv
      exited := hrunning
      flag := h.flag }
  | pushStore value head hwrote =>
    have hcalling : calling state.ring.push = some value := by
      rw [hwrote]
      rfl
    obtain ⟨h1, h2, h3⟩ := h.attempt hcalling
    have hattempted : attempted (events ++ [.pushStore value]) = attempted events ++ [value] :=
      attempted_snoc events _
    exact {
      i_eq := by rw [hattempted]; exact h1
      attempted_le := by rw [hattempted]; exact h2
      attempted_eq := by rw [hattempted]; exact h3
      hot_length := by
        rw [pushed_snoc, List.length_append, ← h.hot_length]
        exact List.length_append
      dropped_eq := by
        rw [refused_snoc, List.length_append]
        exact h.dropped_eq
      argument := by
        intro v hv
        cases hv
      exited := hrunning
      flag := h.flag }

theorem producer_step {label : Label} (h : ProducerAccounts config events state)
    (hstep : AsyncStep visibility runtime config mode base payloadBytes state label state') :
    ProducerAccounts config (events ++ (ringEvent label).toList) state' := by
  cases hstep with
  | push event ring sample hpc hi hparty hvalue hring =>
    exact producer_push h hpc hi hparty hvalue hring
  | pop event ring hpc hparty hring =>
    obtain ⟨hpush, -, hattempted, -⟩ := pop_frame hring hparty
    refine h.silent hattempted rfl rfl rfl rfl ?_ ?_
    · intro v hv
      exact h.argument v (by rw [← hpush]; exact hv)
    · intro hexited
      exact (congrArg calling hpush).trans (h.exited hexited).1
  | producerReady hpc | producerStart version hpc hread =>
    simp only [ringEvent, Option.toList_none, List.append_nil]
    refine { h with exited := ?_, flag := ?_ }
    · intro hexited
      cases hexited
    · rcases h.flag with hflag | ⟨hexited, -⟩
      · exact Or.inl hflag
      · rw [hpc] at hexited
        cases hexited
  | storeDone elapsed hpc hidle hi =>
    simp only [ringEvent, Option.toList_none, List.append_nil]
    refine { h with exited := ?_, flag := ?_ }
    · intro _
      have hle := h.attempted_le
      have hlt := config.iterations.isLt
      rw [h.i_eq, BitVec.lt_def, BitVec.toNat_ofNat, Nat.mod_eq_of_lt (by omega)] at hi
      exact ⟨congrArg calling hidle, by omega⟩
    · rcases h.flag with hflag | ⟨hexited, -⟩
      · exact Or.inr ⟨rfl, by rw [AtomicCell.order_store, hflag]; rfl⟩
      · rw [hpc] at hexited
        cases hexited
  | _ =>
    simp only [ringEvent, Option.toList_none, List.append_nil]
    exact { h with }

/-- Along every run the producer's counters follow the pushes it attempted. -/
theorem run_producer
    (run : Run (AsyncStep visibility runtime config mode base payloadBytes)
      (AsyncState.initial base) history state) :
    ProducerAccounts config (visible ringEvent history) state := by
  refine Run.invariant (fun h s => ProducerAccounts config (visible ringEvent h) s)
    (producer_initial config base) ?_ run
  intro h s label t _ haccounts hstep
  rw [visible_snoc]
  exact producer_step haccounts hstep

/-- The event a worker has popped and not yet accounted for. -/
def WorkerThread.inFlight : WorkerThread → List PoolPointer
  | .processing value => [value]
  | _ => []

/-- The worker's counters after the ring steps `events` and the items `processed`. -/
structure WorkerAccounts (events : List RingEvent) (processed : List PoolPointer)
    (state : AsyncState Event) : Prop where
  popped_eq : popped events = (processed ++ state.worker.inFlight).map some
  completed_eq : state.workerCompleted = BitVec.ofNat 64 processed.length
  samples_length : state.result.workerSamples.length = processed.length
  outside : state.worker ≠ .popping → state.ring.pop = .idle
  emptied : state.worker = .checkingDone ∨ state.worker = .exited →
    state.ring.seenHead = (popped events).length

theorem worker_initial (base : Event) :
    WorkerAccounts [] [] (AsyncState.initial base) where
  popped_eq := rfl
  completed_eq := rfl
  samples_length := rfl
  outside _ := rfl
  emptied h := by simp [AsyncState.initial] at h

variable {processed : List PoolPointer}

/-- A step of the ring inside `pop` keeps the worker's accounts. A null pop saw
no more values than it had taken, and a popped pointer is never null. -/
theorem worker_pop {event : RingEvent} {ring : Ring queueCapacity PoolPointer}
    {queue : List PoolPointer} (h : WorkerAccounts events processed state)
    (hrep : Represents state.ring (popped events).length queue)
    (hpc : state.worker = .popping) (hparty : isPush event = false)
    (hring : SpscPointerRing.Step visibility state.ring event ring) :
    WorkerAccounts (events ++ [event]) processed (state.afterPop event ring) := by
  have hpopped := h.popped_eq
  rw [hpc] at hpopped
  cases hring with
  | pushLoadHead | pushFull | pushRoom | pushWrite | pushStore => simp [isPush] at hparty
  | popLoadTail hidle | popFound tail head version hloaded hread hfound | popRead tail hvalue =>
    refine { h with popped_eq := ?_, outside := ?_, emptied := ?_ }
    · rw [popped_snoc, hpopped]
      exact List.append_nil _
    · intro hne
      exact absurd rfl hne
    · intro hpc'
      rcases hpc' with hpc' | hpc' <;> cases hpc'
  | popEmpty tail head version hloaded hread hempty =>
    obtain ⟨h1, h2, rfl⟩ := hrep.read_head hread
    have hlocal := hrep.pop
    rw [hloaded] at hlocal
    have htail : tail = BitVec.ofNat 64 (popped events).length := hlocal
    rw [htail] at hempty
    have hversion := (hrep.empty_iff h1 h2).mp hempty
    refine { h with popped_eq := ?_, outside := ?_, emptied := ?_ }
    · rw [popped_snoc, hpopped]
      exact List.append_nil _
    · intro _
      rfl
    · intro _
      rw [popped_snoc, List.length_append]
      exact hversion.symm
  | popStore value tail hread =>
    obtain ⟨first, rest, -, rfl⟩ := hrep.pop_value hread
    refine { h with popped_eq := ?_, outside := ?_, emptied := ?_ }
    · rw [popped_snoc, hpopped, List.map_append, List.map_append]
      simp [AsyncState.afterPop, WorkerThread.inFlight, popped]
    · intro _
      rfl
    · intro hpc'
      rcases hpc' with hpc' | hpc' <;> cases hpc'

theorem worker_step {label : Label} {queue : List PoolPointer}
    (h : WorkerAccounts events processed state)
    (hrep : Represents state.ring (popped events).length queue)
    (hstep : AsyncStep visibility runtime config mode base payloadBytes state label state') :
    WorkerAccounts (events ++ (ringEvent label).toList)
      (processed ++ (processedEvent label).toList) state' := by
  cases hstep with
  | pop event ring hpc hparty hring =>
    simp only [processedEvent, Option.toList_none, List.append_nil]
    exact worker_pop h hrep hpc hparty hring
  | push event ring sample hpc hi hparty hvalue hring =>
    obtain ⟨hpop, hseen, hsilent⟩ := push_frame hring hparty
    simp only [processedEvent, Option.toList_none, List.append_nil]
    have hpopped : popped (events ++ [event]) = popped events := by
      rw [popped_snoc, hsilent, List.append_nil]
    refine { h with popped_eq := ?_, samples_length := ?_, outside := ?_, emptied := ?_ }
    · exact hpopped.trans h.popped_eq
    · rw [← h.samples_length]
      unfold AsyncState.afterPush
      cases event <;> rfl
    · intro hne
      exact hpop.trans (h.outside hne)
    · intro hpc'
      exact hseen.trans ((h.emptied hpc').trans (congrArg List.length hpopped.symm))
  | process value scratch added sample hpc hitem =>
    have hpopped := h.popped_eq
    rw [hpc] at hpopped
    simp only [ringEvent, processedEvent, Option.toList_none, Option.toList_some, List.append_nil]
    refine { popped_eq := ?_, completed_eq := ?_, samples_length := ?_, outside := ?_,
             emptied := ?_ }
    · rw [hpopped]
      exact congrArg (List.map some) (List.append_nil _).symm
    · rw [List.length_append, BitVec.ofNat_add, ← h.completed_eq]
      rfl
    · rw [List.length_append, ← h.samples_length]
      exact List.length_append
    · intro hne
      exact absurd rfl hne
    · intro hpc'
      rcases hpc' with hpc' | hpc' <;> cases hpc'
  | workerReady hpc | workerStart version hpc hread | loadNotDone version hpc hread =>
    have hpopped := h.popped_eq
    rw [hpc] at hpopped
    simp only [ringEvent, processedEvent, Option.toList_none, List.append_nil]
    refine { h with popped_eq := hpopped, outside := ?_, emptied := ?_ }
    · intro _
      exact h.outside (by rw [hpc]; exact nofun)
    · intro hpc'
      rcases hpc' with hpc' | hpc' <;> cases hpc'
  | loadDone version elapsed hpc hread =>
    have hpopped := h.popped_eq
    rw [hpc] at hpopped
    simp only [ringEvent, processedEvent, Option.toList_none, List.append_nil]
    refine { h with popped_eq := hpopped, outside := ?_, emptied := ?_ }
    · intro _
      exact h.outside (by rw [hpc]; exact nofun)
    · intro _
      exact h.emptied (Or.inl hpc)
  | _ =>
    simp only [ringEvent, processedEvent, Option.toList_none, List.append_nil]
    exact { h with }

/-- Along every run the worker's counters follow the values it took out. -/
theorem run_worker
    (run : Run (AsyncStep visibility runtime config mode base payloadBytes)
      (AsyncState.initial base) history state) :
    WorkerAccounts (visible ringEvent history) (visible processedEvent history) state := by
  refine Run.invariant
    (fun h s => WorkerAccounts (visible ringEvent h) (visible processedEvent h) s)
    (worker_initial base) ?_ run
  intro h s label t hrun haccounts hstep
  obtain ⟨queue, hrep, -⟩ := ring_represents hrun
  rw [visible_snoc, visible_snoc]
  exact worker_step haccounts hrep hstep

/-- What the main thread knows after its joins, and what it returns. -/
structure MainAccounts (state : AsyncState Event) : Prop where
  joined : state.main = .joinWorker ∨ state.main = .returned → state.producer = .exited
  returned : state.main = .returned → state.worker = .exited ∧
    state.result.completed = state.workerCompleted ∧
    state.result.checksum = state.workerChecksum

theorem main_initial (base : Event) : MainAccounts (AsyncState.initial base) where
  joined h := by simp [AsyncState.initial] at h
  returned h := by simp [AsyncState.initial] at h

theorem main_step {label : Label} (h : MainAccounts state)
    (hstep : AsyncStep visibility runtime config mode base payloadBytes state label state') :
    MainAccounts state' := by
  -- A thread that has been joined takes no further step.
  have hworker : state.worker ≠ .exited → state.main ≠ .returned :=
    fun hne hmain => hne (h.returned hmain).1
  have hproducer : state.producer ≠ .exited →
      ¬ (state.main = .joinWorker ∨ state.main = .returned) :=
    fun hne hmain => hne (h.joined hmain)
  cases hstep with
  | workerReady hpc | workerStart version hpc hread | pop event ring hpc hparty hring
  | loadDone version elapsed hpc hread | loadNotDone version hpc hread
  | process value scratch added sample hpc hitem =>
    have hmain := hworker (by rw [hpc]; exact nofun)
    exact { h with returned := fun hreturned => absurd hreturned hmain }
  | workerSpin version hpc hread | producerSpin version hpc hread => exact h
  | producerReady hpc | producerStart version hpc hread
  | push event ring sample hpc hi hparty hvalue hring | storeDone elapsed hpc hidle hi =>
    have hmain := hproducer (by rw [hpc]; exact nofun)
    exact {
      joined := fun hjoined => absurd hjoined hmain
      returned := fun hreturned => absurd (Or.inr hreturned) hmain }
  | mainReady hpc hready | mainStart hpc =>
    exact {
      joined := by
        intro hjoined
        rcases hjoined with hjoined | hjoined <;> cases hjoined
      returned := by
        intro hreturned
        cases hreturned }
  | mainJoinProducer hpc hjoin =>
    exact {
      joined := fun _ => hjoin
      returned := by
        intro hreturned
        cases hreturned }
  | mainJoinWorker hpc hjoin =>
    exact {
      joined := fun _ => h.joined (Or.inl hpc)
      returned := fun _ => ⟨hjoin, rfl, rfl⟩ }

theorem run_main
    (run : Run (AsyncStep visibility runtime config mode base payloadBytes)
      (AsyncState.initial base) history state) : MainAccounts state :=
  Run.invariant (fun _ s => MainAccounts s) (main_initial base)
    (fun _ _ _ _ _ haccounts hstep => main_step haccounts hstep) run

/-- Once the worker has read a set flag, neither thread touches the ring again. -/
structure ExitRecord (history : List (AsyncState Event × Label)) (state : AsyncState Event) :
    Prop where
  recorded : state.worker = .exited → ∃ s, (s, Label.loadProducerDone true) ∈ history
  settled : ∀ s, (s, Label.loadProducerDone true) ∈ history →
    state.worker = .exited ∧ state.producer = .exited ∧ s.ring = state.ring

theorem afterPop_not_exited (state : AsyncState Event) (event : RingEvent)
    (ring : Ring queueCapacity PoolPointer) : (state.afterPop event ring).worker ≠ .exited := by
  unfold AsyncState.afterPop
  dsimp only
  split <;> exact nofun

theorem exitRecord_step {label : Label} (h : ExitRecord history state)
    (haccounts : ProducerAccounts config (visible ringEvent history) state)
    (hstep : AsyncStep visibility runtime config mode base payloadBytes state label state') :
    ExitRecord (history ++ [(state, label)]) state' := by
  by_cases hread : label = .loadProducerDone true
  · subst hread
    cases hstep with
    | loadDone version elapsed hpc hread =>
      have hexited : state.producer = .exited := by
        obtain ⟨-, -, hvalue⟩ := hread.bounds (Nat.zero_le _)
        rcases haccounts.flag with hflag | ⟨hexited, -⟩
        · rw [hflag] at hvalue
          have := List.mem_of_getElem? hvalue
          simp at this
        · exact hexited
      constructor
      · intro _
        exact ⟨state, by simp⟩
      · intro s hmem
        rcases List.mem_append.mp hmem with hold | hnew
        · exact absurd (h.settled s hold).1 (by rw [hpc]; exact nofun)
        · obtain ⟨rfl, -⟩ := Prod.mk.inj (List.mem_singleton.mp hnew)
          exact ⟨rfl, hexited, rfl⟩
  · have hmem : ∀ s, (s, Label.loadProducerDone true) ∈ history ++ [(state, label)] ↔
        (s, Label.loadProducerDone true) ∈ history := by
      intro s
      rw [List.mem_append, List.mem_singleton, Prod.mk.injEq]
      exact ⟨fun hor => hor.resolve_right fun heq => hread heq.2.symm, Or.inl⟩
    have hkeep : state'.worker = .exited → state.worker = .exited := by
      intro hexited
      cases hstep with
      | workerReady | workerStart | loadNotDone | process => cases hexited
      | pop event ring hpc hparty hring =>
        exact absurd hexited (afterPop_not_exited state event ring)
      | loadDone => exact absurd rfl hread
      | _ => exact hexited
    constructor
    · intro hexited
      obtain ⟨s, hs⟩ := h.recorded (hkeep hexited)
      exact ⟨s, (hmem s).mpr hs⟩
    · intro s hs
      obtain ⟨hworker, hproducer, hring⟩ := h.settled s ((hmem s).mp hs)
      cases hstep with
      | workerReady hpc | workerSpin version hpc hread | workerStart version hpc hread
      | pop event ring hpc hparty hring | loadDone version elapsed hpc hread
      | loadNotDone version hpc hread | process value scratch added sample hpc hitem =>
        rw [hpc] at hworker
        cases hworker
      | producerReady hpc | producerSpin version hpc hread | producerStart version hpc hread
      | push event ring sample hpc hi hparty hvalue hring | storeDone elapsed hpc hidle hi =>
        rw [hpc] at hproducer
        cases hproducer
      | _ => exact ⟨hworker, hproducer, hring⟩

theorem run_exitRecord
    (run : Run (AsyncStep visibility runtime config mode base payloadBytes)
      (AsyncState.initial base) history state) : ExitRecord history state := by
  refine Run.invariant (fun h s => ExitRecord h s) ⟨?_, ?_⟩ ?_ run
  · intro hexited
    cases hexited
  · intro s hmem
    cases hmem
  · intro h s label t hrun hrecord hstep
    exact exitRecord_step hrecord (run_producer hrun) hstep

theorem processItem_eq {runtime : Runtime} (hsucceeds : runtime.Succeeds)
    {scratch after : Scratch Event} {added : BitVec 64}
    (hitem : processItem runtime base mode scratch (payloadSize base) = .ok (added, after)) :
    added = BitVec.ofNat 64 (eventChecksum base mode) := by
  unfold processItem at hitem
  split at hitem
  · rename_i hmode
    subst hmode
    exact (Prod.mk.inj (Except.ok.inj hitem)).1.symm
  · obtain ⟨after', hok⟩ := processEvent_ok hsucceeds base mode scratch
    rw [hok] at hitem
    exact (Prod.mk.inj (Except.ok.inj hitem)).1.symm

/-- Every processed item adds the same amount to the worker's checksum. -/
theorem run_checksum (hsucceeds : runtime.Succeeds)
    (run : Run (AsyncStep visibility runtime config mode base (payloadSize base))
      (AsyncState.initial base) history state) :
    state.workerChecksum = BitVec.ofNat 64
      ((visible processedEvent history).length * eventChecksum base mode) := by
  refine Run.invariant (fun h s => s.workerChecksum = BitVec.ofNat 64
    ((visible processedEvent h).length * eventChecksum base mode)) ?_ ?_ run
  · simp [AsyncState.initial]
  · intro h s label t _ hchecksum hstep
    rw [visible_snoc]
    cases hstep with
    | process value scratch added sample hpc hitem =>
      obtain rfl := processItem_eq hsucceeds hitem
      simp only [AsyncState.afterItem, hchecksum, processedEvent, Option.toList_some,
        List.length_append, List.length_singleton, Nat.succ_mul, BitVec.ofNat_add]
      rfl
    | _ =>
      simp only [processedEvent, Option.toList_none, List.append_nil]
      exact hchecksum

end Accounts

end ProtobufKafkaBench.AsyncPipeline

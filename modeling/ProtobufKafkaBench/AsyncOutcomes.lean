import ProtobufKafkaBench.AsyncAccounts

/-!
What `run_async` returns. Under the guard of `parse_args` no push is refused;
the accounting of the two threads agrees with the control path on every
completed event; and all events are completed or dropped exactly when the flag
that ends the worker's loop was read while its last view of `head_` was current.
-/
namespace ProtobufKafkaBench.AsyncPipeline

open Transitions AtomicCells ByteBuffers WireFormat MarketEvents CommandLine SpscPointerRing

variable {Event : Type} [Traits Event] {visibility : Visibility} {runtime : Runtime}
  {config : Config} {mode : Mode} {base : Event} {payloadBytes : ℕ}
  {history : List (AsyncState Event × Label)} {state : AsyncState Event}

section Conservation

/-- Every pushed pointer has been processed, is being processed or is queued. -/
theorem run_conserves
    (run : Run (AsyncStep visibility runtime config mode base payloadBytes)
      (AsyncState.initial base) history state) :
    ∃ queue, Represents state.ring
        (visible processedEvent history ++ state.worker.inFlight).length queue ∧
      pushed (visible ringEvent history) =
        visible processedEvent history ++ state.worker.inFlight ++ queue := by
  obtain ⟨queue, hrep, hconserved⟩ := ring_represents run
  have hpopped := (run_worker run).popped_eq
  rw [hpopped, List.length_map] at hrep
  rw [hpopped, ← List.map_append] at hconserved
  exact ⟨queue, hrep, List.map_injective_iff.mpr (Option.some_injective _) hconserved⟩

theorem processed_le
    (run : Run (AsyncStep visibility runtime config mode base payloadBytes)
      (AsyncState.initial base) history state) :
    (visible processedEvent history).length ≤ (pushed (visible ringEvent history)).length := by
  obtain ⟨queue, -, hpushed⟩ := run_conserves run
  rw [hpushed, List.length_append, List.length_append]
  omega

theorem completed_toNat
    (run : Run (AsyncStep visibility runtime config mode base payloadBytes)
      (AsyncState.initial base) history state) :
    state.workerCompleted.toNat = (visible processedEvent history).length := by
  have hprocessed := processed_le run
  have hattempted := (run_producer run).attempted_le
  have hlength := attempted_length (visible ringEvent history)
  have hlt := config.iterations.isLt
  rw [(run_worker run).completed_eq, BitVec.toNat_ofNat, Nat.mod_eq_of_lt (by omega)]

theorem dropped_toNat
    (run : Run (AsyncStep visibility runtime config mode base payloadBytes)
      (AsyncState.initial base) history state) :
    state.result.dropped.toNat = (refused (visible ringEvent history)).length := by
  have hattempted := (run_producer run).attempted_le
  have hlength := attempted_length (visible ringEvent history)
  have hlt := config.iterations.isLt
  rw [(run_producer run).dropped_eq, BitVec.toNat_ofNat, Nat.mod_eq_of_lt (by omega)]

end Conservation

section Refusals

/-- With no more iterations than slots, a `try_push` cannot find the ring full:
fewer values than that have been pushed, whatever `tail_` it has seen. -/
theorem refused_nil (hcapacity : config.iterations.toNat ≤ kQueueCapacity)
    (run : Run (AsyncStep visibility runtime config mode base payloadBytes)
      (AsyncState.initial base) history state) :
    refused (visible ringEvent history) = [] := by
  refine Run.invariant (fun h _ => refused (visible ringEvent h) = []) rfl ?_ run
  intro h s label t hrun hrefused hstep
  rw [visible_snoc]
  cases hstep with
  | pop event ring hpc hparty hring =>
    obtain ⟨-, -, -, hsilent⟩ := pop_frame hring hparty
    exact (refused_snoc _ event).trans (by rw [hrefused, hsilent]; rfl)
  | push event ring sample hpc hi hparty hvalue hring =>
    refine (refused_snoc _ event).trans ?_
    rw [hrefused]
    cases hring with
    | pushFull value head tail version hloaded hread hfull =>
      obtain ⟨queue, hrep, hconserved⟩ := ring_represents hrun
      obtain ⟨h1, h2, rfl⟩ := hrep.read_tail hread
      have hlocal := hrep.push
      rw [hloaded] at hlocal
      have hhead : head = BitVec.ofNat 64
          ((popped (visible ringEvent h)).length + queue.length) := hlocal
      rw [hhead] at hfull
      have hsize := (hrep.full_iff h1 h2).mp hfull
      have hpushed := congrArg List.length hconserved
      rw [List.length_append, List.length_map, List.length_map] at hpushed
      have haccounts := run_producer hrun
      have hlength := attempted_length (visible ringEvent h)
      have hle := haccounts.attempted_le
      have hlt := config.iterations.isLt
      rw [haccounts.i_eq, BitVec.lt_def, BitVec.toNat_ofNat,
        Nat.mod_eq_of_lt (by omega)] at hi
      rw [queueCapacity_size] at hsize
      omega
    | _ => rfl
  | _ => simpa [ringEvent] using hrefused

theorem pushed_eq_attempted {events : List RingEvent} (h : refused events = []) :
    pushed events = attempted events := by
  induction events with
  | nil => rfl
  | cons event rest ih =>
    cases event with
    | pushFull value => simp [refused] at h
    | pushStore value =>
      have hrest := ih (by simpa [refused] using h)
      simpa [pushed, attempted] using hrest
    | _ =>
      have hrest := ih (by simpa [refused] using h)
      simpa [pushed, attempted] using hrest

end Refusals

section Schedules

/-- The producer stands at the top of its loop with `i = n`; the worker stands at
`worker`, outside `pop`, and has processed `completed` events. -/
structure AtLoop (worker : WorkerThread) (n completed : ℕ) (state : AsyncState Event) :
    Prop where
  worker : state.worker = worker
  producer : state.producer = .running
  push : state.ring.push = .idle
  pop : state.ring.pop = .idle
  i : state.i = BitVec.ofNat 64 n
  main : state.main = .joinProducer
  completed : state.workerCompleted = BitVec.ofNat 64 completed

/-- A run that ends with both threads at the tops of their loops. -/
def Reached (visibility : Visibility) (runtime : Runtime) (config : Config) (mode : Mode)
    (base : Event) (payloadBytes : ℕ) (worker : WorkerThread) (n completed : ℕ) : Prop :=
  ∃ (history : List (AsyncState Event × Label)) (state : AsyncState Event),
    Run (AsyncStep visibility runtime config mode base payloadBytes)
      (AsyncState.initial base) history state ∧ AtLoop worker n completed state

theorem reached_zero : Reached visibility runtime config mode base payloadBytes .popping 0 0 := by
  have start : Run (AsyncStep visibility runtime config mode base payloadBytes)
    (AsyncState.initial base) [] _ := Run.nil
  have ready := (start.snoc (.workerReady _ rfl)).snoc (.producerReady _ rfl)
  have released := (ready.snoc (.mainReady _ rfl rfl)).snoc (.mainStart _ rfl)
  have running := (released.snoc
    (.workerStart _ 1 rfl (visibility.reads_current (Nat.zero_le _)))).snoc
    (.producerStart _ 1 rfl (visibility.reads_current (Nat.zero_le _)))
  exact ⟨_, _, running, ⟨rfl, rfl, rfl, rfl, rfl, rfl, rfl⟩⟩

/-- At the tops of the loops, `n - completed` pushed values are queued. -/
theorem AtLoop.queue {worker : WorkerThread} {n completed : ℕ}
    (h : AtLoop worker n completed state) (hidle : worker.inFlight = [])
    (hn : n ≤ config.iterations.toNat) (hcompleted : completed ≤ n)
    (hcapacity : config.iterations.toNat ≤ kQueueCapacity)
    (run : Run (AsyncStep visibility runtime config mode base payloadBytes)
      (AsyncState.initial base) history state) :
    ∃ queue, Represents state.ring completed queue ∧ queue.length = n - completed := by
  obtain ⟨queue, hrep, hpushed⟩ := run_conserves run
  have haccounts := run_producer run
  have hle := haccounts.attempted_le
  have hlt := config.iterations.isLt
  rw [h.worker, hidle, List.append_nil] at hrep hpushed
  have hattempted := congrArg BitVec.toNat (h.i.symm.trans haccounts.i_eq)
  rw [BitVec.toNat_ofNat, BitVec.toNat_ofNat, Nat.mod_eq_of_lt (by omega),
    Nat.mod_eq_of_lt (by omega)] at hattempted
  have hprocessed := completed_toNat run
  rw [h.completed, BitVec.toNat_ofNat, Nat.mod_eq_of_lt (by omega)] at hprocessed
  have hlength := congrArg List.length hpushed
  rw [pushed_eq_attempted (refused_nil hcapacity run), List.length_append] at hlength
  rw [← hprocessed] at hrep
  exact ⟨queue, hrep, by omega⟩

/-- The producer can finish one more push while the worker stays where it is. -/
theorem reached_push {worker : WorkerThread} {n completed : ℕ} (hidle : worker.inFlight = [])
    (hn : n < config.iterations.toNat) (hcompleted : completed ≤ n)
    (hcapacity : config.iterations.toNat ≤ kQueueCapacity)
    (h : Reached visibility runtime config mode base payloadBytes worker n completed) :
    Reached visibility runtime config mode base payloadBytes worker (n + 1) completed := by
  obtain ⟨history, state, run, hloop⟩ := h
  obtain ⟨queue, hrep, hqueue⟩ := hloop.queue hidle hn.le hcompleted hcapacity run
  have hlt := config.iterations.isLt
  have hi : state.i < config.iterations := by
    rw [hloop.i, BitVec.lt_def, BitVec.toNat_ofNat, Nat.mod_eq_of_lt (by omega)]
    exact hn
  have hroom : state.ring.head.current - state.ring.tail.current ≠ queueCapacity.word := by
    intro hfull
    have hlength := congrArg BitVec.toNat hfull
    rw [hrep.counter_difference, RingCapacity.word, BitVec.toNat_ofNat,
      Nat.mod_eq_of_lt queueCapacity.size_lt, queueCapacity_size] at hlength
    omega
  have hseen : state.ring.seenTail ≤ state.ring.tail.version := by
    rw [hrep.tail_counts.version]
    exact hrep.seenTail_le
  have loaded := run.snoc (.push state (.pushLoadHead (poolIndex state.i)) _ 0 hloop.producer
    hi rfl (by intro v hv; cases hv; rfl) (.pushLoadHead _ _ hloop.push))
  have checked := loaded.snoc (.push _ .pushRoom _ 0 hloop.producer hi rfl nofun
    (.pushRoom _ _ _ _ _ rfl (visibility.reads_current hseen) hroom))
  have wrote := checked.snoc (.push _ _ _ 0 hloop.producer hi rfl (by intro v hv; cases hv)
    (.pushWrite _ _ _ rfl))
  have stored := wrote.snoc (.push _ _ _ 0 hloop.producer hi rfl (by intro v hv; cases hv)
    (.pushStore _ _ _ rfl))
  refine ⟨_, _, stored, { hloop with push := rfl, i := ?_ }⟩
  rw [BitVec.ofNat_add, ← hloop.i]
  rfl

/-- The worker can take and process one queued event. -/
theorem reached_take {n completed : ℕ} (hsucceeds : runtime.Succeeds)
    (hn : n ≤ config.iterations.toNat) (hcompleted : completed < n)
    (hcapacity : config.iterations.toNat ≤ kQueueCapacity)
    (h : Reached visibility runtime config mode base (payloadSize base) .popping n completed) :
    Reached visibility runtime config mode base (payloadSize base) .popping n
      (completed + 1) := by
  obtain ⟨history, state, run, hloop⟩ := h
  obtain ⟨queue, hrep, hqueue⟩ := hloop.queue rfl hn hcompleted.le hcapacity run
  cases queue with
  | nil =>
    simp only [List.length_nil] at hqueue
    omega
  | cons first rest =>
    have hfound : state.ring.tail.current ≠ state.ring.head.current := by
      intro heq
      have hdifference := hrep.counter_difference
      rw [heq, BitVec.sub_self] at hdifference
      cases hdifference
    have hvalue : state.ring.readEntry state.ring.tail.current = some first := by
      rw [hrep.tail_counts.current]
      exact hrep.contents 0 first rfl
    have hseen : state.ring.seenHead ≤ state.ring.head.version := by
      rw [hrep.head_counts.version]
      exact hrep.seenHead_le
    have hitem : ∃ added after, processItem runtime base mode state.scratch (payloadSize base) =
        .ok (added, after) := by
      unfold processItem
      split
      · exact ⟨_, _, rfl⟩
      · obtain ⟨after, hok⟩ := processEvent_ok hsucceeds base mode state.scratch
        exact ⟨_, after, hok⟩
    obtain ⟨added, after, hitem⟩ := hitem
    have loaded := run.snoc (.pop state .popLoadTail _ hloop.worker rfl (.popLoadTail _ hloop.pop))
    have found := loaded.snoc (.pop _ .popFound _ rfl rfl
      (.popFound _ _ _ _ rfl (visibility.reads_current hseen) hfound))
    have read := found.snoc (.pop _ _ _ rfl rfl (.popRead _ _ rfl))
    have stored := read.snoc (.pop _ (.popStore (some first)) _ rfl rfl
      (.popStore _ _ _ (congrArg (fun v => Pop.readEntry v _) hvalue)))
    have processed := stored.snoc (.process _ first after added 0 rfl hitem)
    refine ⟨_, _, processed, { hloop with worker := rfl, pop := rfl, completed := ?_ }⟩
    rw [BitVec.ofNat_add, ← hloop.completed]
    rfl

/-- The worker can find the ring as empty as it last saw it. -/
theorem reached_null {n completed : ℕ} (hcompleted : completed = n)
    (hn : n ≤ config.iterations.toNat) (hcapacity : config.iterations.toNat ≤ kQueueCapacity)
    (h : Reached visibility runtime config mode base payloadBytes .popping n completed) :
    Reached visibility runtime config mode base payloadBytes .checkingDone n completed := by
  obtain ⟨history, state, run, hloop⟩ := h
  obtain ⟨queue, hrep, hqueue⟩ := hloop.queue rfl hn hcompleted.le hcapacity run
  have hempty : state.ring.tail.current = state.ring.head.current := by
    rw [hrep.head_counts.current, hrep.tail_counts.current, hqueue, hcompleted, Nat.sub_self,
      Nat.add_zero]
  have hseen : state.ring.seenHead ≤ state.ring.head.version := by
    rw [hrep.head_counts.version]
    exact hrep.seenHead_le
  have loaded := run.snoc (.pop state .popLoadTail _ hloop.worker rfl (.popLoadTail _ hloop.pop))
  have empty := loaded.snoc (.pop _ .popEmpty _ rfl rfl
    (.popEmpty _ _ _ _ rfl (visibility.reads_current hseen) hempty))
  exact ⟨_, _, empty, { hloop with worker := rfl, pop := rfl }⟩

/-- A run after which `run_async` has returned with `completed` events processed. -/
def Completes (visibility : Visibility) (runtime : Runtime) (config : Config) (mode : Mode)
    (base : Event) (payloadBytes completed : ℕ) : Prop :=
  ∃ (history : List (AsyncState Event × Label)) (state : AsyncState Event),
    Run (AsyncStep visibility runtime config mode base payloadBytes)
      (AsyncState.initial base) history state ∧
    state.producer = .exited ∧ state.worker = .exited ∧ state.main = .returned ∧
    state.workerCompleted = BitVec.ofNat 64 completed ∧
    state.result.completed = BitVec.ofNat 64 completed

theorem completes_of_reached {completed : ℕ}
    (h : Reached visibility runtime config mode base payloadBytes .checkingDone
      config.iterations.toNat completed) :
    Completes visibility runtime config mode base payloadBytes completed := by
  obtain ⟨history, state, run, hloop⟩ := h
  have hdone : ¬ state.i < config.iterations := by
    rw [hloop.i, BitVec.ofNat_toNat, BitVec.setWidth_eq, BitVec.lt_def]
    exact Nat.lt_irrefl _
  have finished := run.snoc (.storeDone state 0 hloop.producer hloop.push hdone)
  have left := finished.snoc (.loadDone _ _ 0 hloop.worker
    (visibility.reads_current (Nat.zero_le _)))
  have joined := (left.snoc (.mainJoinProducer _ hloop.main rfl)).snoc
    (.mainJoinWorker _ rfl rfl)
  exact ⟨_, _, joined, rfl, rfl, rfl, hloop.completed, hloop.completed⟩

variable (visibility runtime mode base payloadBytes)

/-- The schedule in which the producer does all its work between the worker's
null pop and the worker's load of `producer_done`: nothing is processed. -/
theorem overtaken_run (hcapacity : config.iterations.toNat ≤ kQueueCapacity) :
    Completes visibility runtime config mode base payloadBytes 0 := by
  have hpushes : ∀ n ≤ config.iterations.toNat,
      Reached visibility runtime config mode base payloadBytes .checkingDone n 0 := by
    intro n hn
    induction n with
    | zero => exact reached_null rfl (Nat.zero_le _) hcapacity reached_zero
    | succ n ih => exact reached_push rfl hn (Nat.zero_le n) hcapacity (ih (by omega))
  exact completes_of_reached (hpushes _ (Nat.le_refl _))

/-- The schedule in which the worker takes each event as soon as it is pushed:
everything is processed. -/
theorem drained_run (hsucceeds : runtime.Succeeds)
    (hcapacity : config.iterations.toNat ≤ kQueueCapacity) :
    Completes visibility runtime config mode base (payloadSize base)
      config.iterations.toNat := by
  have hitems : ∀ n ≤ config.iterations.toNat,
      Reached visibility runtime config mode base (payloadSize base) .popping n n := by
    intro n hn
    induction n with
    | zero => exact reached_zero
    | succ n ih =>
      have hpushed := reached_push rfl hn (Nat.le_refl n) hcapacity (ih (by omega))
      exact reached_take hsucceeds hn (Nat.lt_succ_self n) hcapacity hpushed
  exact completes_of_reached
    (reached_null rfl (Nat.le_refl _) hcapacity (hitems _ (Nat.le_refl _)))

end Schedules

section HotThread

/-- The hot thread never meets a full ring: for every accepted configuration and
every schedule no `try_push` returns false, the k-th pushed pointer is the pool
index of k, which is k modulo the size of the pool, and is in its slot until it is
popped, and once the producer has left its loop nothing was dropped and every
iteration has its sample. -/
theorem hot_thread_never_drops {args : List Bytes} (hargs : parseArgs args = .ok config)
    (run : Run (AsyncStep visibility runtime config mode base payloadBytes)
      (AsyncState.initial base) history state) :
    (∀ value, SpscPointerRing.Event.pushFull value ∉ visible ringEvent history) ∧
    state.result.dropped = 0 ∧
    pushed (visible ringEvent history) =
      (List.range (pushed (visible ringEvent history)).length).map
        (fun k => poolIndex (BitVec.ofNat 64 k)) ∧
    (∀ k, (poolIndex (BitVec.ofNat 64 k)).val = k % 1024) ∧
    (∀ k, (popped (visible ringEvent history)).length ≤ k →
      k < (pushed (visible ringEvent history)).length →
      state.ring.entries (queueCapacity.slot (BitVec.ofNat 64 k)) =
        some (poolIndex (BitVec.ofNat 64 k))) ∧
    (state.producer = .exited →
      state.result.hotSamples.length = config.iterations.toNat ∧
      (pushed (visible ringEvent history)).length = config.iterations.toNat) := by
  have hrefused := refused_nil (parseArgs_ok hargs).2.2 run
  have haccounts := run_producer run
  have hpushed := pushed_eq_attempted hrefused
  have hindices : pushed (visible ringEvent history) =
      (List.range (pushed (visible ringEvent history)).length).map
        (fun k => poolIndex (BitVec.ofNat 64 k)) := by
    rw [hpushed]
    exact haccounts.attempted_eq
  refine ⟨?_, ?_, hindices, poolIndex_val, ?_, ?_⟩
  · intro value hmem
    have hvalue : value ∈ refused (visible ringEvent history) := by
      unfold refused
      exact List.mem_filterMap.mpr ⟨_, hmem, rfl⟩
    rw [hrefused] at hvalue
    exact List.not_mem_nil hvalue
  · rw [haccounts.dropped_eq, hrefused]
    rfl
  · intro k htaken hk
    obtain ⟨queue, hrep, hconserved⟩ := ring_represents run
    have hvalue : queue[k - (popped (visible ringEvent history)).length]? =
        some (poolIndex (BitVec.ofNat 64 k)) := by
      have hmap := congrArg (fun values => values[k]?) hconserved
      simp only [List.getElem?_append_right htaken, List.getElem?_map] at hmap
      rw [hindices, List.getElem?_map, List.getElem?_range hk] at hmap
      simpa using hmap.symm
    have hcontents := hrep.contents _ _ hvalue
    rwa [Nat.add_sub_cancel' htaken] at hcontents
  · intro hexited
    have hlength := (haccounts.exited hexited).2
    rw [haccounts.hot_length, hpushed]
    exact ⟨hlength, hlength⟩

/-- The default configuration, with the worker asleep until the producer is done. -/
theorem hot_thread_never_drops_default :
    ∃ (history : List (AsyncState IntEvent × Label)) (state : AsyncState IntEvent),
      Run (AsyncStep .acquireRelease .standard {} .asyncBoth makeIntEvent
        (payloadSize makeIntEvent)) (AsyncState.initial makeIntEvent) history state ∧
      state.result.dropped = 0 ∧ state.result.hotSamples.length = 1000000 ∧
      (pushed (visible ringEvent history)).length = 1000000 := by
  obtain ⟨history, state, run, hproducer, -⟩ := overtaken_run .acquireRelease .standard .asyncBoth
    makeIntEvent (payloadSize makeIntEvent) (parseArgs_ok parseArgs_nil).2.2
  obtain ⟨-, hdropped, -, -, -, hexited⟩ := hot_thread_never_drops parseArgs_nil run
  exact ⟨history, state, run, hdropped, hexited hproducer⟩

end HotThread

section Processing

/-- Asynchronous processing agrees with the control path on what was completed:
the processed events are the first pushed ones, each counted and sampled once,
and each adds the amount of its mode, which is nothing for the handoff alone and
the control path's amount for `AsyncBoth`. The control path completes every
iteration, samples each once and adds that amount for each. -/
theorem runAsync_agrees_with_runSync (hsucceeds : runtime.Succeeds)
    (run : Run (AsyncStep visibility runtime config mode base (payloadSize base))
      (AsyncState.initial base) history state) (hreturned : state.main = .returned) :
    state.result.workerSamples.length = state.result.completed.toNat ∧
    state.result.hotSamples.length + state.result.dropped.toNat = config.iterations.toNat ∧
    (visible processedEvent history).length = state.result.completed.toNat ∧
    visible processedEvent history <+: pushed (visible ringEvent history) ∧
    state.result.checksum =
      state.result.completed * BitVec.ofNat 64 (eventChecksum base mode) ∧
    eventChecksum base .asyncHandoff = 0 ∧
    eventChecksum base .asyncBoth =
      eventChecksum base .asyncProtobuf + eventChecksum base .asyncPipe ∧
    (∀ scratch, ∃ after, processEvent runtime base .syncBoth scratch (payloadSize base) =
      .ok (BitVec.ofNat 64 (eventChecksum base .asyncBoth), after)) ∧
    (∀ times elapsed, ∃ result,
      runSync runtime config base (payloadSize base) times elapsed = .ok result ∧
      result.completed = config.iterations ∧
      result.hotSamples = (List.range config.iterations.toNat).map times ∧
      result.workerSamples = (List.range config.iterations.toNat).map times ∧
      result.checksum =
        config.iterations * BitVec.ofNat 64 (eventChecksum base .asyncBoth)) := by
  obtain ⟨hworker, hcompleted, hchecksum⟩ := (run_main run).returned hreturned
  have hproducer := (run_producer run).exited ((run_main run).joined (Or.inr hreturned))
  have haccounts := run_worker run
  have hcount := completed_toNat run
  have hsum := attempted_length (visible ringEvent history)
  obtain ⟨queue, -, hpushed⟩ := run_conserves run
  refine ⟨?_, ?_, ?_, ?_, ?_, ?_, ?_, ?_, ?_⟩
  · rw [hcompleted, hcount, haccounts.samples_length]
  · rw [(run_producer run).hot_length, dropped_toNat run, ← hsum, hproducer.2]
  · rw [hcompleted, hcount]
  · rw [hpushed, List.append_assoc]
    exact List.prefix_append _ _
  · rw [hchecksum, run_checksum hsucceeds run, hcompleted, haccounts.completed_eq,
      BitVec.ofNat_mul]
  · rfl
  · simp [eventChecksum, doesProto, doesPipe]
  · intro scratch
    exact processEvent_ok hsucceeds base .syncBoth scratch
  · intro times elapsed
    exact ⟨_, runSync_ok hsucceeds config base times elapsed, rfl, rfl, rfl, rfl⟩

/-- The default configuration, drained: all 1,000,000 events are accounted for. -/
theorem runAsync_agrees_with_runSync_default :
    ∃ (history : List (AsyncState WideEvent × Label)) (state : AsyncState WideEvent),
      Run (AsyncStep .interleaving .standard {} .asyncBoth makeWideEvent
        (payloadSize makeWideEvent)) (AsyncState.initial makeWideEvent) history state ∧
      state.result.completed = 1000000 ∧ state.result.workerSamples.length = 1000000 ∧
      state.result.checksum =
        1000000 * BitVec.ofNat 64 (eventChecksum makeWideEvent .asyncBoth) := by
  obtain ⟨history, state, run, -, -, hreturned, -, hcompleted⟩ := drained_run .interleaving
    .standard .asyncBoth makeWideEvent Runtime.standard_succeeds (parseArgs_ok parseArgs_nil).2.2
  obtain ⟨hsamples, -, -, -, hchecksum, -⟩ :=
    runAsync_agrees_with_runSync Runtime.standard_succeeds run hreturned
  rw [hcompleted] at hsamples hchecksum
  exact ⟨history, state, run, hcompleted, hsamples, hchecksum⟩

end Processing

section NoEventLost

/-- Once both threads have left their loops, the ring is empty and every iteration
was completed or dropped exactly when each load of `producer_done` that returned
true was made while the `head_` the worker had last loaded was still the newest. -/
theorem no_event_lost_iff_head_current
    (run : Run (AsyncStep visibility runtime config mode base payloadBytes)
      (AsyncState.initial base) history state)
    (hproducer : state.producer = .exited) (hworker : state.worker = .exited) :
    (state.RingEmpty ∧
      state.workerCompleted.toNat + state.result.dropped.toNat = config.iterations.toNat ↔
        ∀ s, (s, Label.loadProducerDone true) ∈ history →
          s.ring.seenHead = s.ring.head.version) ∧
    (state.main = .returned → state.result.completed = state.workerCompleted) := by
  obtain ⟨queue, hrep, hpushed⟩ := run_conserves run
  have hrecord := run_exitRecord run
  have hseen := (run_worker run).emptied (Or.inr hworker)
  rw [(run_worker run).popped_eq, List.length_map] at hseen
  have hsum := attempted_length (visible ringEvent history)
  rw [((run_producer run).exited hproducer).2, hpushed] at hsum
  rw [hworker] at hrep hpushed hseen hsum
  simp only [WorkerThread.inFlight, List.append_nil, List.length_append] at hrep hpushed hseen hsum
  -- All three conditions say that nothing is queued.
  have hcurrent : (∀ s, (s, Label.loadProducerDone true) ∈ history →
      s.ring.seenHead = s.ring.head.version) ↔ queue.length = 0 := by
    have hhead := hrep.head_counts.version
    constructor
    · intro hall
      obtain ⟨s, hmem⟩ := hrecord.recorded hworker
      have heq := hall s hmem
      rw [(hrecord.settled s hmem).2.2] at heq
      omega
    · intro hzero s hmem
      rw [(hrecord.settled s hmem).2.2]
      omega
  have hempty : state.RingEmpty ↔ queue.length = 0 := by
    have hdifference := hrep.counter_difference
    unfold AsyncState.RingEmpty
    constructor
    · intro heq
      rw [heq, BitVec.sub_self, BitVec.toNat_zero] at hdifference
      exact hdifference.symm
    · intro hzero
      rw [hrep.head_counts.current, hrep.tail_counts.current, hzero, Nat.add_zero]
  have hcount : state.workerCompleted.toNat + state.result.dropped.toNat =
      config.iterations.toNat ↔ queue.length = 0 := by
    rw [completed_toNat run, dropped_toNat run]
    omega
  refine ⟨?_, fun hreturned => ((run_main run).returned hreturned).2.1⟩
  rw [hcurrent, hempty, hcount]
  exact and_self_iff

/-- The lossy schedule with the default configuration: the condition fails, and so
does the accounting. -/
theorem no_event_lost_iff_head_current_default :
    ∃ (history : List (AsyncState IntEvent × Label)) (state : AsyncState IntEvent),
      Run (AsyncStep .interleaving .standard {} .asyncBoth makeIntEvent
        (payloadSize makeIntEvent)) (AsyncState.initial makeIntEvent) history state ∧
      (state.RingEmpty ∧ state.workerCompleted.toNat + state.result.dropped.toNat = 1000000 ↔
        ∀ s, (s, Label.loadProducerDone true) ∈ history →
          s.ring.seenHead = s.ring.head.version) := by
  obtain ⟨history, state, run, hproducer, hworker, -⟩ := overtaken_run .interleaving .standard
    .asyncBoth makeIntEvent (payloadSize makeIntEvent) (parseArgs_ok parseArgs_nil).2.2
  exact ⟨history, state, run, (no_event_lost_iff_head_current run hproducer hworker).1⟩

/-- With the default configuration all 1,000,000 events can be lost: the worker
pops null, the producer pushes everything and sets the flag, the worker leaves. -/
theorem runAsync_can_lose_every_event :
    parseArgs [] = .ok {} ∧
    ¬ ∀ (history : List (AsyncState IntEvent × Label)) (state : AsyncState IntEvent),
      Run (AsyncStep .interleaving .standard {} .asyncBoth makeIntEvent
        (payloadSize makeIntEvent)) (AsyncState.initial makeIntEvent) history state →
      state.producer = .exited → state.worker = .exited →
      state.RingEmpty ∧
        state.workerCompleted.toNat + state.result.dropped.toNat = 1000000 := by
  refine ⟨parseArgs_nil, ?_⟩
  intro hall
  have hcapacity := (parseArgs_ok parseArgs_nil).2.2
  obtain ⟨history, state, run, hproducer, hworker, -, hcompleted, -⟩ := overtaken_run .interleaving
    .standard .asyncBoth makeIntEvent (payloadSize makeIntEvent) hcapacity
  have hdropped := dropped_toNat run
  rw [refused_nil hcapacity run] at hdropped
  have hsum := (hall history state run hproducer hworker).2
  rw [hcompleted, hdropped] at hsum
  exact absurd hsum (by decide)

end NoEventLost

end ProtobufKafkaBench.AsyncPipeline

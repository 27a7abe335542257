import ProtobufKafkaBench.KafkaProduce
import ProtobufKafkaBench.Transitions

/-!
The repetitions of the Kafka producer benchmark. The error counter is global
and reset at the top of each repetition, while delivery reports run during
retries, at every 16384th message and in the flush. Nothing is outstanding at a
repetition boundary, so each row counts the failures of its own messages.
-/
namespace ProtobufKafkaBench.KafkaProducer

open Transitions ByteBuffers

structure Config where
  iterations : BitVec 64 := 1000000
  repetitions : BitVec 32 := 10
  mode : Bytes := ascii "copy"
  acks : Bytes := ascii "0"
  compression : Bytes := ascii "none"
  lingerMs : BitVec 32 := 0
  batchNumMessages : BitVec 32 := 1

/-- A CSV row, without its measured times. -/
structure Row where
  repetition : BitVec 32
  iterations : BitVec 64
  bytes : ℕ
  deliveryErrors : BitVec 64
  mode : Bytes
  acks : Bytes
  compression : Bytes
  lingerMs : BitVec 32
  batchNumMessages : BitVec 32

inductive Phase
  | repetition
  | produce
  | finished
  | failed (error : ProduceError)

variable {wire : Bytes}

structure RunState (wire : Bytes) where
  world : World wire
  phase : Phase
  repetition : BitVec 32
  i : BitVec 64
  checksum : BitVec 64
  rows : List Row

def RunState.initial (config : Config) (reusable : ByteBuffer wire.length) : RunState wire where
  world := World.initial reusable
  phase :=
    if config.mode ≠ ascii "copy" ∧ config.mode ≠ ascii "owned" then
      .failed (.runtimeError (ascii "mode must be copy or owned"))
    else .repetition
  repetition := 1
  i := 0
  checksum := 0
  rows := []

/-- The messages that a step accepted, and those whose delivery report it ran. -/
structure Traffic where
  accepted : List ℕ
  reported : List ℕ

def World.traffic (before after : World wire) : Traffic where
  accepted := List.range' before.deliveries.accepted.length
    (after.deliveries.accepted.length - before.deliveries.accepted.length)
  reported := after.deliveries.reported.drop before.deliveries.reported.length

/-- `if ((i & 0x3fff) == 0) rd_kafka_poll(producer, 0)`. -/
def pollEvery (library : Librdkafka) (ready : ℕ → Bool) (i : BitVec 64) (world : World wire) :
    World wire :=
  if i &&& 0x3fff = 0 then world.serve library ready else world

def row (config : Config) (state : RunState wire) (errors : BitVec 64) : Row where
  repetition := state.repetition
  iterations := config.iterations
  bytes := wire.length
  deliveryErrors := errors
  mode := config.mode
  acks := config.acks
  compression := config.compression
  lingerMs := config.lingerMs
  batchNumMessages := config.batchNumMessages

/-- The steps of `run` after the producer has been made: the top of a repetition,
one message with its retries, the flush, and the ways out. A flush that reports
no error leaves no message without its delivery report. -/
inductive RunStep (library : Librdkafka) (config : Config) :
    RunState wire → Traffic → RunState wire → Prop
  | reset (state : RunState wire) (hphase : state.phase = .repetition)
      (hrepetition : state.repetition ≤ config.repetitions) :
      RunStep library config state (state.world.traffic state.world)
        { state with
          world := { state.world with deliveryErrors := 0 }
          phase := .produce, i := 0, checksum := 0 }
  | finish (state : RunState wire) (hphase : state.phase = .repetition)
      (hrepetition : ¬ state.repetition ≤ config.repetitions) :
      RunStep library config state (state.world.traffic state.world)
        { state with phase := .finished }
  | produced (state : RunState wire) (attempts : List (Attempt wire)) (world : World wire)
      (ready : ℕ → Bool) (hphase : state.phase = .produce) (hi : state.i < config.iterations)
      (hcall : produceWithRetry library config.mode attempts state.world =
        (.returned true, world)) :
      RunStep library config state
        (state.world.traffic (pollEvery library ready state.i world))
        { state with
          world := pollEvery library ready state.i world
          i := state.i + 1
          checksum := state.checksum + BitVec.ofNat 64 wire.length }
  | notProduced (state : RunState wire) (attempts : List (Attempt wire)) (world : World wire)
      (hphase : state.phase = .produce) (hi : state.i < config.iterations)
      (hcall : produceWithRetry library config.mode attempts state.world =
        (.returned false, world)) :
      RunStep library config state (state.world.traffic world)
        { state with
          world
          phase := .failed (.runtimeError (ascii "Kafka serialization/produce failed")) }
  | threw (state : RunState wire) (attempts : List (Attempt wire)) (world : World wire)
      (error : ProduceError) (hphase : state.phase = .produce) (hi : state.i < config.iterations)
      (hcall : produceWithRetry library config.mode attempts state.world =
        (.threw error, world)) :
      RunStep library config state (state.world.traffic world)
        { state with world, phase := .failed error }
  | flushed (state : RunState wire) (ready : ℕ → Bool) (hphase : state.phase = .produce)
      (hi : ¬ state.i < config.iterations)
      (hflush : (state.world.serve library ready).deliveries.outstanding = []) :
      RunStep library config state (state.world.traffic (state.world.serve library ready))
        { state with
          world := state.world.serve library ready
          phase := .repetition
          repetition := state.repetition + 1
          rows := state.rows ++
            [row config state (state.world.serve library ready).deliveryErrors] }
  | flushFailed (state : RunState wire) (ready : ℕ → Bool) (error : RespErr)
      (hphase : state.phase = .produce) (hi : ¬ state.i < config.iterations) :
      RunStep library config state (state.world.traffic (state.world.serve library ready))
        { state with
          world := { state.world.serve library ready with lastError := error }
          phase := .failed
            (.runtimeError (kafkaError library (ascii "rd_kafka_flush") error)) }

/-- The messages accepted, and those reported, while `j` rows had been written. -/
def acceptedIn (j : ℕ) (history : List (RunState wire × Traffic)) : List ℕ :=
  history.flatMap fun entry => if entry.1.rows.length = j then entry.2.accepted else []

def reportedIn (j : ℕ) (history : List (RunState wire × Traffic)) : List ℕ :=
  history.flatMap fun entry => if entry.1.rows.length = j then entry.2.reported else []

theorem acceptedIn_snoc (j : ℕ) (history : List (RunState wire × Traffic))
    (state : RunState wire) (traffic : Traffic) :
    acceptedIn j (history ++ [(state, traffic)]) =
      acceptedIn j history ++ if state.rows.length = j then traffic.accepted else [] := by
  simp [acceptedIn]

theorem reportedIn_snoc (j : ℕ) (history : List (RunState wire × Traffic))
    (state : RunState wire) (traffic : Traffic) :
    reportedIn j (history ++ [(state, traffic)]) =
      reportedIn j history ++ if state.rows.length = j then traffic.reported else [] := by
  simp [reportedIn]

section Window

variable {library : Librdkafka}

/-- What has been accepted and reported since message `first`, when nothing before
it was outstanding. -/
structure Since (first : ℕ) (accepted reported : List ℕ) (deliveries : Deliveries) : Prop where
  length_eq : deliveries.accepted.length = first + accepted.length
  accepted_eq : accepted = List.range' first accepted.length
  earlier : ∃ earlier, deliveries.reported = earlier ++ reported ∧
    earlier.Perm (List.range first)

theorem Since.start {deliveries : Deliveries} (hempty : deliveries.outstanding = []) :
    Since deliveries.accepted.length [] [] deliveries where
  length_eq := rfl
  accepted_eq := rfl
  earlier := by
    refine ⟨deliveries.reported, (List.append_nil _).symm, ?_⟩
    have hbalanced := deliveries.balanced
    rwa [hempty, List.append_nil] at hbalanced

/-- Every message of the window is reported or outstanding. -/
theorem Since.balanced {first : ℕ} {accepted reported : List ℕ} {deliveries : Deliveries}
    (h : Since first accepted reported deliveries) :
    (reported ++ deliveries.outstanding).Perm accepted := by
  obtain ⟨earlier, hreported, hearlier⟩ := h.earlier
  have hsettled := deliveries.settled_since hreported hearlier
    (by rw [h.length_eq]; exact Nat.le_add_right _ _)
  rw [h.length_eq, Nat.add_sub_cancel_left, ← h.accepted_eq] at hsettled
  exact hsettled

theorem traffic_eq {before after : World wire} {since : List ℕ} {n : ℕ}
    (hreports : Reports library before after since)
    (hcount : after.deliveries.accepted.length = before.deliveries.accepted.length + n) :
    before.traffic after =
      ⟨List.range' before.deliveries.accepted.length n, since⟩ := by
  simp [World.traffic, hcount, hreports.1]

theorem Since.extend {first n : ℕ} {accepted reported since : List ℕ} {before after : World wire}
    (h : Since first accepted reported before.deliveries)
    (hreports : Reports library before after since)
    (hcount : after.deliveries.accepted.length = before.deliveries.accepted.length + n) :
    Since first (accepted ++ (before.traffic after).accepted)
      (reported ++ (before.traffic after).reported) after.deliveries := by
  rw [traffic_eq hreports hcount]
  obtain ⟨earlier, hreported, hearlier⟩ := h.earlier
  refine { length_eq := ?_, accepted_eq := ?_, earlier := ⟨earlier, ?_, hearlier⟩ }
  · rw [hcount, h.length_eq, List.length_append, List.length_range', Nat.add_assoc]
  · have happend := @List.range'_append first accepted.length n 1
    rw [Nat.one_mul, ← h.accepted_eq, ← h.length_eq] at happend
    rw [List.length_append, List.length_range']
    exact happend
  · rw [hreports.1, hreported, List.append_assoc]

theorem traffic_self (world : World wire) : world.traffic world = ⟨[], []⟩ := by
  simp [World.traffic]

theorem pollEvery_reports (library : Librdkafka) (ready : ℕ → Bool) (i : BitVec 64)
    (world : World wire) :
    (∃ since, Reports library world (pollEvery library ready i world) since) ∧
      (pollEvery library ready i world).deliveries.accepted = world.deliveries.accepted := by
  unfold pollEvery
  split
  · exact ⟨⟨_, serve_reports library world ready⟩, rfl⟩
  · exact ⟨⟨[], (List.append_nil _).symm, (BitVec.add_zero _).symm⟩, rfl⟩

end Window

section Accepted

variable {wire : Bytes} {library : Librdkafka} {config : Config} {state : RunState wire}

/-- An attempt whose message is serialized and taken at once. -/
def acceptedAttempt (wire : Bytes) : Attempt wire where
  malloc := none
  serializeToArray _ := (true, ⟨wire, rfl⟩)
  complete _ _ := rfl
  refused := none
  ready _ := true
  polled := .noError

theorem accepted_call (hmode : config.mode = ascii "copy") (world : World wire) :
    ∃ after, produceWithRetry library config.mode [acceptedAttempt wire] world =
      (.returned true, after) := by
  rw [hmode]
  exact ⟨_, rfl⟩

/-- The messages of a repetition, one after the other. -/
theorem run_messages (hmode : config.mode = ascii "copy") {count : ℕ}
    (hphase : state.phase = .produce) (hcount : state.i.toNat + count = config.iterations.toNat) :
    ∃ history state', Run (RunStep library config) state history state' ∧
      state'.phase = .produce ∧ ¬ state'.i < config.iterations ∧
      state'.repetition = state.repetition ∧ state'.rows = state.rows := by
  induction count generalizing state with
  | zero =>
    refine ⟨[], state, .nil, hphase, ?_, rfl, rfl⟩
    rw [BitVec.lt_def]
    omega
  | succ count ih =>
    have hi : state.i < config.iterations := by
      rw [BitVec.lt_def]
      omega
    have hbound := config.iterations.isLt
    obtain ⟨world, hcall⟩ := @accepted_call wire library config hmode state.world
    have hstep := RunStep.produced state _ world (fun _ => true) hphase hi hcall
    have hnext : (state.i + 1).toNat = state.i.toNat + 1 := by
      rw [BitVec.toNat_add, show (1 : BitVec 64).toNat = 1 by rfl]
      exact Nat.mod_eq_of_lt (by omega)
    obtain ⟨history, state', run, hphase', hdone, hsame⟩ :=
      @ih { state with
        world := pollEvery library (fun _ => true) state.i world
        i := state.i + 1
        checksum := state.checksum + BitVec.ofNat 64 wire.length } hphase (by
          change (state.i + 1).toNat + count = _
          omega)
    exact ⟨_, state', (Run.nil.snoc hstep).append run, hphase', hdone, hsame⟩

/-- The repetitions that are left. -/
theorem run_repetitions (hmode : config.mode = ascii "copy") {count : ℕ}
    (hphase : state.phase = .repetition)
    (hcount : state.repetition.toNat + count = config.repetitions.toNat + 1)
    (hleft : config.repetitions.toNat < 2 ^ 32 - 1) :
    ∃ history state', Run (RunStep library config) state history state' ∧
      state'.phase = .finished ∧ state'.rows.length = state.rows.length + count := by
  induction count generalizing state with
  | zero =>
    have hpassed : ¬ state.repetition ≤ config.repetitions := by
      rw [BitVec.le_def]
      omega
    exact ⟨_, _, Run.nil.snoc (.finish state hphase hpassed), rfl, rfl⟩
  | succ count ih =>
    have hrepetition : state.repetition ≤ config.repetitions := by
      rw [BitVec.le_def]
      omega
    have hreset := @RunStep.reset wire library config state hphase hrepetition
    obtain ⟨messages, produced, hmessages, hproduce, hdone, hsame, hrows⟩ :=
      @run_messages wire library config { state with
        world := { state.world with deliveryErrors := 0 }
        phase := .produce, i := 0, checksum := 0 } hmode config.iterations.toNat rfl
        (Nat.zero_add _)
    have hflush : (produced.world.serve library fun _ => true).deliveries.outstanding = [] :=
      List.filter_eq_nil_iff.mpr fun _ _ h => Bool.false_ne_true h
    have hflushed := RunStep.flushed produced (fun _ => true) hproduce hdone hflush
    replace hsame : produced.repetition = state.repetition := hsame
    replace hrows : produced.rows = state.rows := hrows
    have hnext : (produced.repetition + 1).toNat = state.repetition.toNat + 1 := by
      rw [hsame, BitVec.toNat_add, show (1 : BitVec 32).toNat = 1 by rfl]
      exact Nat.mod_eq_of_lt (by omega)
    obtain ⟨rest, last, hrest, hfinished, hlength⟩ := @ih { produced with
      world := produced.world.serve library fun _ => true
      phase := .repetition
      repetition := produced.repetition + 1
      rows := produced.rows ++
        [row config produced (produced.world.serve library fun _ => true).deliveryErrors] } rfl (by
          change (produced.repetition + 1).toNat + count = _
          omega)
    refine ⟨_, last, (((Run.nil.snoc hreset).append hmessages).snoc hflushed).append hrest,
      hfinished, ?_⟩
    change last.rows.length = (produced.rows ++ [_]).length + count at hlength
    rw [hlength, hrows, List.length_append, List.length_singleton]
    omega

/-- If librdkafka takes every message at once, the run comes to its end. -/
theorem exists_finished (hmode : config.mode = ascii "copy")
    (hleft : config.repetitions.toNat < 2 ^ 32 - 1) (reusable : ByteBuffer wire.length) :
    ∃ history state, Run (RunStep library config) (RunState.initial config reusable) history state ∧
      state.phase = .finished ∧ state.rows.length = config.repetitions.toNat := by
  have hstart : (RunState.initial config reusable).phase = .repetition :=
    if_neg fun h => h.1 hmode
  have hcount : 1 + config.repetitions.toNat = config.repetitions.toNat + 1 := by omega
  obtain ⟨history, state, run, hfinished, hlength⟩ :=
    @run_repetitions wire library config _ hmode _ hstart hcount hleft
  exact ⟨history, state, run, hfinished, hlength.trans (Nat.zero_add _)⟩

end Accepted

section Accounts

variable {library : Librdkafka} {config : Config} {reusable : ByteBuffer wire.length}
  {history : List (RunState wire × Traffic)} {state state' : RunState wire} {traffic : Traffic}

/-- The row written after `j` others is about the messages accepted while it was
the current one, and every delivery report of that time belongs to one of them. -/
structure RowAccounts (library : Librdkafka) (config : Config)
    (history : List (RunState wire × Traffic)) (j : ℕ) (row : Row) : Prop where
  repetition_eq : row.repetition = BitVec.ofNat 32 (j + 1)
  iterations_eq : row.iterations = config.iterations
  accepted_eq : acceptedIn j history =
    List.range' (j * config.iterations.toNat) config.iterations.toNat
  reported_perm : (reportedIn j history).Perm (acceptedIn j history)
  errors_eq : row.deliveryErrors.toNat = (acceptedIn j history).countP library.failed

/-- Between and during repetitions: earlier rows are settled, later ones have seen
nothing, and the window of the current one began with nothing outstanding. -/
structure RunAccounts (library : Librdkafka) (config : Config)
    (history : List (RunState wire × Traffic)) (state : RunState wire) : Prop where
  repetition_eq : state.repetition = BitVec.ofNat 32 (state.rows.length + 1)
  past : ∀ j row, state.rows[j]? = some row → RowAccounts library config history j row
  future : ∀ j, state.rows.length < j → acceptedIn j history = [] ∧ reportedIn j history = []
  window : state.phase = .repetition ∨ state.phase = .produce →
    Since (state.rows.length * config.iterations.toNat) (acceptedIn state.rows.length history)
      (reportedIn state.rows.length history) state.world.deliveries
  atTop : state.phase = .repetition → acceptedIn state.rows.length history = [] ∧
    reportedIn state.rows.length history = [] ∧ state.world.deliveries.outstanding = []
  producing : state.phase = .produce →
    (acceptedIn state.rows.length history).length = state.i.toNat ∧
      state.i ≤ config.iterations ∧ state.world.deliveryErrors =
        BitVec.ofNat 64 ((reportedIn state.rows.length history).countP library.failed)

theorem runAccounts_initial (library : Librdkafka) (config : Config)
    (reusable : ByteBuffer wire.length) :
    RunAccounts library config [] (RunState.initial config reusable) where
  repetition_eq := rfl
  past j row h := by simp [RunState.initial] at h
  future _ _ := ⟨rfl, rfl⟩
  window _ := by
    have hstart : Since _ [] [] Deliveries.empty := Since.start rfl
    simpa [RunState.initial, acceptedIn, reportedIn, World.initial, Deliveries.empty] using hstart
  atTop _ := ⟨rfl, rfl, rfl⟩
  producing h := by
    unfold RunState.initial at h
    dsimp only at h
    split at h <;> cases h

/-- What has been written stays about the same messages. -/
theorem RunAccounts.past_snoc (h : RunAccounts library config history state)
    (traffic : Traffic) :
    ∀ j row, state.rows[j]? = some row →
      RowAccounts library config (history ++ [(state, traffic)]) j row := by
  intro j row hrow
  have hj := (List.getElem?_eq_some_iff.mp hrow).1
  have hne : ¬ state.rows.length = j := by omega
  have haccepted : acceptedIn j (history ++ [(state, traffic)]) = acceptedIn j history := by
    rw [acceptedIn_snoc, if_neg hne, List.append_nil]
  have hreported : reportedIn j (history ++ [(state, traffic)]) = reportedIn j history := by
    rw [reportedIn_snoc, if_neg hne, List.append_nil]
  have hpast := h.past j row hrow
  exact { hpast with
    accepted_eq := haccepted.trans hpast.accepted_eq
    reported_perm := by rw [haccepted, hreported]; exact hpast.reported_perm
    errors_eq := by rw [haccepted]; exact hpast.errors_eq }

theorem RunAccounts.future_snoc (h : RunAccounts library config history state)
    (traffic : Traffic) :
    ∀ j, state.rows.length < j → acceptedIn j (history ++ [(state, traffic)]) = [] ∧
      reportedIn j (history ++ [(state, traffic)]) = [] := by
  intro j hj
  have hne : ¬ state.rows.length = j := by omega
  rw [acceptedIn_snoc, reportedIn_snoc, if_neg hne, if_neg hne, List.append_nil, List.append_nil]
  exact h.future j hj

theorem acceptedIn_current (history : List (RunState wire × Traffic)) (state : RunState wire)
    (traffic : Traffic) :
    acceptedIn state.rows.length (history ++ [(state, traffic)]) =
      acceptedIn state.rows.length history ++ traffic.accepted := by
  rw [acceptedIn_snoc, if_pos rfl]

theorem reportedIn_current (history : List (RunState wire × Traffic)) (state : RunState wire)
    (traffic : Traffic) :
    reportedIn state.rows.length (history ++ [(state, traffic)]) =
      reportedIn state.rows.length history ++ traffic.reported := by
  rw [reportedIn_snoc, if_pos rfl]

/-- A step after which nothing more is accepted, reported or written. -/
theorem runAccounts_stop (h : RunAccounts library config history state) (traffic : Traffic)
    {world : World wire} {phase : Phase} (hphase : phase ≠ .repetition ∧ phase ≠ .produce) :
    RunAccounts library config (history ++ [(state, traffic)])
      { state with world, phase } where
  repetition_eq := h.repetition_eq
  past := h.past_snoc traffic
  future := h.future_snoc traffic
  window hwindow := absurd hwindow (not_or.mpr hphase)
  atTop htop := absurd htop hphase.1
  producing hproduce := absurd hproduce hphase.2

theorem runAccounts_reset (h : RunAccounts library config history state)
    (hphase : state.phase = .repetition) :
    RunAccounts library config (history ++ [(state, state.world.traffic state.world)])
      { state with
        world := { state.world with deliveryErrors := 0 }
        phase := .produce, i := 0, checksum := 0 } := by
  obtain ⟨haccepted, hreported, -⟩ := h.atTop hphase
  rw [traffic_self]
  refine { repetition_eq := h.repetition_eq, past := h.past_snoc _, future := h.future_snoc _,
           window := ?_, atTop := nofun, producing := ?_ }
  · intro _
    dsimp only
    rw [acceptedIn_current, reportedIn_current, List.append_nil, List.append_nil]
    exact h.window (Or.inl hphase)
  · intro _
    dsimp only
    rw [acceptedIn_current, reportedIn_current, haccepted, hreported]
    refine ⟨rfl, ?_, rfl⟩
    rw [BitVec.le_def]
    exact Nat.zero_le _

/-- One message: a whole call of `produce_with_retry` and the poll after it. -/
theorem runAccounts_produced (h : RunAccounts library config history state)
    {attempts : List (Attempt wire)} {world : World wire} {ready : ℕ → Bool}
    (hphase : state.phase = .produce) (hi : state.i < config.iterations)
    (hcall : produceWithRetry library config.mode attempts state.world =
      (.returned true, world)) :
    RunAccounts library config
      (history ++ [(state, state.world.traffic (pollEvery library ready state.i world))])
      { state with
        world := pollEvery library ready state.i world
        i := state.i + 1
        checksum := state.checksum + BitVec.ofNat 64 wire.length } := by
  have hcalled := produceWithRetry_spec hcall
  obtain ⟨since, hsince⟩ := hcalled.reports
  obtain ⟨⟨polled, hpolled⟩, hsame⟩ := pollEvery_reports library ready state.i world
  have hreports := hsince.trans hpolled
  have hcount : (pollEvery library ready state.i world).deliveries.accepted.length =
      state.world.deliveries.accepted.length + 1 := by
    rw [hsame, hcalled.accepted]
    exact List.length_append
  obtain ⟨hlength, hle, herrors⟩ := h.producing hphase
  refine { repetition_eq := h.repetition_eq, past := h.past_snoc _, future := h.future_snoc _,
           window := ?_, atTop := ?_, producing := ?_ }
  · intro _
    dsimp only
    rw [acceptedIn_current, reportedIn_current]
    exact (h.window (Or.inr hphase)).extend hreports hcount
  · intro htop
    rw [hphase] at htop
    cases htop
  · intro _
    have hbound := config.iterations.isLt
    rw [BitVec.lt_def] at hi
    have hnext : (state.i + 1).toNat = state.i.toNat + 1 := by
      rw [BitVec.toNat_add, show (1 : BitVec 64).toNat = 1 by rfl]
      exact Nat.mod_eq_of_lt (by omega)
    dsimp only
    rw [acceptedIn_current, reportedIn_current, traffic_eq hreports hcount]
    refine ⟨?_, ?_, ?_⟩
    · rw [List.length_append, hlength, hnext, List.length_range']
    · rw [BitVec.le_def, hnext]
      exact hi
    · rw [List.countP_append, BitVec.ofNat_add, ← herrors]
      exact hreports.2

/-- The row that the flush writes accounts for the window that it closes. -/
theorem rowAccounts_flushed (h : RunAccounts library config history state) {ready : ℕ → Bool}
    (hphase : state.phase = .produce) (hiterations : state.i.toNat = config.iterations.toNat)
    (hflush : (state.world.serve library ready).deliveries.outstanding = []) :
    RowAccounts library config
      (history ++ [(state, state.world.traffic (state.world.serve library ready))])
      state.rows.length (row config state (state.world.serve library ready).deliveryErrors) := by
  have hreports := serve_reports library state.world ready
  have hcount : (state.world.serve library ready).deliveries.accepted.length =
      state.world.deliveries.accepted.length + 0 := rfl
  obtain ⟨hlength, -, herrors⟩ := h.producing hphase
  have hwindow := (h.window (Or.inr hphase)).extend hreports hcount
  have hperm := hwindow.balanced
  rw [hflush, List.append_nil] at hperm
  have haccepted : acceptedIn state.rows.length
      (history ++ [(state, state.world.traffic (state.world.serve library ready))]) =
      List.range' (state.rows.length * config.iterations.toNat) config.iterations.toNat := by
    have heq := hwindow.accepted_eq
    rw [List.length_append, hlength, hiterations, traffic_eq hreports hcount] at heq
    rw [acceptedIn_current, traffic_eq hreports hcount]
    exact heq
  refine { repetition_eq := h.repetition_eq, iterations_eq := rfl, accepted_eq := haccepted,
           reported_perm := ?_, errors_eq := ?_ }
  · rw [acceptedIn_current, reportedIn_current]
    exact hperm
  · have hfailed := hperm.countP_eq library.failed
    rw [← acceptedIn_current, haccepted] at hfailed
    rw [haccepted, ← hfailed]
    have hbound := config.iterations.isLt
    have hsmall := List.countP_le_length (p := library.failed)
      (l := List.range' (state.rows.length * config.iterations.toNat) config.iterations.toNat)
    rw [← hfailed, List.length_range'] at hsmall
    have htotal : (state.world.serve library ready).deliveryErrors = BitVec.ofNat 64
        ((reportedIn state.rows.length history ++
          (state.world.traffic (state.world.serve library ready)).reported).countP
            library.failed) := by
      rw [traffic_eq hreports hcount, List.countP_append, BitVec.ofNat_add, ← herrors]
      exact hreports.2
    simp only [row, htotal, BitVec.toNat_ofNat]
    exact Nat.mod_eq_of_lt (by omega)

/-- The flush closes the window: everything accepted in it has been reported. -/
theorem runAccounts_flushed (h : RunAccounts library config history state) {ready : ℕ → Bool}
    (hphase : state.phase = .produce) (hi : ¬ state.i < config.iterations)
    (hflush : (state.world.serve library ready).deliveries.outstanding = []) :
    RunAccounts library config
      (history ++ [(state, state.world.traffic (state.world.serve library ready))])
      { state with
        world := state.world.serve library ready
        phase := .repetition
        repetition := state.repetition + 1
        rows := state.rows ++
          [row config state (state.world.serve library ready).deliveryErrors] } := by
  obtain ⟨hlength, hle, -⟩ := h.producing hphase
  have hcount : (state.world.serve library ready).deliveries.accepted.length =
      state.world.deliveries.accepted.length := rfl
  have hiterations : state.i.toNat = config.iterations.toNat := by
    rw [BitVec.lt_def] at hi
    rw [BitVec.le_def] at hle
    omega
  refine { repetition_eq := ?_, past := ?_, future := ?_, window := ?_, atTop := ?_,
           producing := nofun }
  · rw [h.repetition_eq, List.length_append, List.length_singleton]
    exact (BitVec.ofNat_add ..).symm
  · intro j written hrow
    rcases Nat.lt_trichotomy j state.rows.length with hlt | rfl | hgt
    · rw [List.getElem?_append_left hlt] at hrow
      exact h.past_snoc _ j written hrow
    · rw [List.getElem?_concat_length] at hrow
      obtain rfl := Option.some.inj hrow
      exact rowAccounts_flushed h hphase hiterations hflush
    · have hbound := (List.getElem?_eq_some_iff.mp hrow).1
      rw [List.length_append, List.length_singleton] at hbound
      omega
  · intro j hj
    rw [List.length_append, List.length_singleton] at hj
    exact h.future_snoc _ j (by omega)
  · intro _
    obtain ⟨haccepted, hreported⟩ := h.future_snoc
      (state.world.traffic (state.world.serve library ready)) (state.rows.length + 1)
      (Nat.lt_succ_self _)
    have hstart := Since.start hflush
    have hend := (h.window (Or.inr hphase)).length_eq
    rw [hlength, hiterations, ← Nat.succ_mul] at hend
    rw [hcount, hend] at hstart
    rw [List.length_append, List.length_singleton, haccepted, hreported]
    exact hstart
  · intro _
    obtain ⟨haccepted, hreported⟩ := h.future_snoc
      (state.world.traffic (state.world.serve library ready)) (state.rows.length + 1)
      (Nat.lt_succ_self _)
    rw [List.length_append, List.length_singleton]
    exact ⟨haccepted, hreported, hflush⟩

theorem runAccounts_step (h : RunAccounts library config history state)
    (hstep : RunStep library config state traffic state') :
    RunAccounts library config (history ++ [(state, traffic)]) state' := by
  cases hstep with
  | reset hphase hrepetition => exact runAccounts_reset h hphase
  | finish hphase hrepetition => exact runAccounts_stop h _ ⟨nofun, nofun⟩
  | produced attempts world ready hphase hi hcall => exact runAccounts_produced h hphase hi hcall
  | notProduced attempts world hphase hi hcall => exact runAccounts_stop h _ ⟨nofun, nofun⟩
  | threw attempts world error hphase hi hcall => exact runAccounts_stop h _ ⟨nofun, nofun⟩
  | flushed ready hphase hi hflush => exact runAccounts_flushed h hphase hi hflush
  | flushFailed ready error hphase hi => exact runAccounts_stop h _ ⟨nofun, nofun⟩

theorem runAccounts_run
    (run : Run (RunStep library config) (RunState.initial config reusable) history state) :
    RunAccounts library config history state := by
  refine run.invariant (fun h s => RunAccounts library config h s)
    (runAccounts_initial library config reusable) ?_
  intro h s traffic t _ haccounts hstep
  exact runAccounts_step haccounts hstep

/-- Delivery errors belong to the repetition that caused them: for every run, the
j-th row counts the failed ones among the messages accepted while it was the
current row, which are `iterations` many, and the delivery reports of that time
are those of the same messages, each once. -/
theorem rows_attribute_delivery_errors
    (run : Run (RunStep library config) (RunState.initial config reusable) history state)
    {j : ℕ} {written : Row} (hrow : state.rows[j]? = some written) :
    written.repetition = BitVec.ofNat 32 (j + 1) ∧
    (acceptedIn j history).length = config.iterations.toNat ∧
    written.deliveryErrors.toNat = (acceptedIn j history).countP library.failed ∧
    acceptedIn j history =
      List.range' (j * config.iterations.toNat) config.iterations.toNat ∧
    (reportedIn j history).Perm (acceptedIn j history) := by
  have hwritten := (runAccounts_run run).past j written hrow
  refine ⟨hwritten.repetition_eq, ?_, hwritten.errors_eq, hwritten.accepted_eq,
    hwritten.reported_perm⟩
  rw [hwritten.accepted_eq, List.length_range']

/-- Two repetitions of two messages each. The third message is the only one whose delivery
fails, and only the second row counts it. -/
theorem rows_attribute_delivery_errors_second_row :
    let library : Librdkafka := ⟨fun _ => [], fun id => if id = 2 then .other 1 else .noError⟩
    let config : Config := { iterations := 2, repetitions := 2 }
    let reusable : ByteBuffer ([7] : Bytes).length := ⟨[0], rfl⟩
    ∃ (history : List (RunState [7] × Traffic)) (state : RunState [7]) (first second : Row),
      Run (RunStep library config) (RunState.initial config reusable) history state ∧
      state.rows = [first, second] ∧ first.deliveryErrors.toNat = 0 ∧
      acceptedIn 1 history = [2, 3] ∧ (reportedIn 1 history).Perm [2, 3] ∧
      second.deliveryErrors.toNat = 1 := by
  intro library config reusable
  obtain ⟨history, state, run, -, hlength⟩ :=
    @exists_finished [7] library config rfl (by decide) reusable
  obtain ⟨first, second, hrows⟩ := List.length_eq_two.mp hlength
  have hfirst : state.rows[0]? = some first := by rw [hrows]; rfl
  have hsecond : state.rows[1]? = some second := by rw [hrows]; rfl
  obtain ⟨-, -, herrors, haccepted, -⟩ := rows_attribute_delivery_errors run hfirst
  obtain ⟨-, -, herrors', haccepted', hreported⟩ := rows_attribute_delivery_errors run hsecond
  rw [haccepted] at herrors
  rw [haccepted'] at herrors' hreported
  exact ⟨history, state, first, second, run, hrows, herrors, haccepted', hreported, herrors'⟩

end Accounts

end ProtobufKafkaBench.KafkaProducer

import ProtobufKafkaBench.RegistrySession

/-!
The agenda of the schema registry benchmark: what it does if nothing goes wrong, order by
order. Whatever the network does, the program carries out its agenda from the start, and
stops early only where a handle is missing or a reply that must be successful is not.
-/
namespace ProtobufKafkaBench.RegistrySession

open ByteBuffers CommandLine CountedLoops Dialogues HttpSessions MarketEvents RegistryArguments
open SchemaRegistry WireFormat

section Orders

/-- What the program does between two points at which it may have to stop. -/
inductive Order
  | acquire
  | bootstrap
  | steady (testCase : Case) (api : Api) (repetition : ℕ)
  | network (path : NetworkPath) (repetition : ℕ)
  | exceptional (path : RequestPath) (repetition : ℕ)
  | retry (repetition : ℕ)

variable (runtime : Runtime) (config : Config) (subject schema : Bytes)

/-- The line of a framing measurement: every call gives the size of the frame, or zero. -/
def steadyLine (testCase : Case) (api : Api) (repetition : ℕ) (timing : Timing) : SteadyLine :=
  let bytes := if serializes runtime testCase.message api then 6 + byteSizeLong testCase.message
    else 0
  { api := apiName api
    testCase := caseName testCase
    repetition
    iterations := config.iterations
    bytes
    timing
    checksum := BitVec.ofNat 64 (config.iterations.toNat * bytes) }

def Order.act : Order → Program Unit
  | .acquire => HttpSessions.acquire
  | .bootstrap => (registerSchema config subject schema).bind fun _ => .done ()
  | .steady testCase api repetition => do
    let timing ← Dialogue.ask .clock
    writeLine (.steady (steadyLine runtime config testCase api repetition timing))
  | .network path repetition => networkRound config subject schema path repetition
  | .exceptional path repetition => requestRound path repetition
  | .retry repetition => retryRound config subject repetition

/-- One order for each repetition. -/
def repeated (repetitions : BitVec 32) (order : ℕ → Order) : List Order :=
  (List.range' 1 repetitions.toNat).map order

def framingAgenda (testCase : Case) : List Order :=
  repeated config.repetitions (.steady testCase .cachedIdFramedInPlace) ++
    (repeated config.repetitions (.steady testCase .cachedIdFramedWithCopy) ++
      repeated config.repetitions (.steady testCase .cachedSerializerString))

def networkAgenda (path : NetworkPath) : List Order :=
  (if path.coldConnection then [] else [.acquire]) ++
    repeated config.networkRepetitions (.network path)

def exceptionalAgenda : List Order :=
  repeated config.networkRepetitions (.exceptional (cacheMiss config subject)) ++
    (repeated config.networkRepetitions (.exceptional (unavailable config)) ++
      repeated config.networkRepetitions .retry)

def agenda : List Order :=
  [.acquire] ++ ([.bootstrap] ++ (framingAgenda config .int64 ++
    (framingAgenda config .decimal ++ (framingAgenda config .wide ++
      (networkAgenda config keepaliveLookup ++ (networkAgenda config coldLookup ++
        (networkAgenda config registrations ++ exceptionalAgenda config subject)))))))

end Orders

section Framing

variable {runtime : Runtime} {config : Config} {subject schema : Bytes}

theorem ofFault_ok {α β : Type} (value : α) (f : α → Program β) :
    (ofFault (.ok value) >>= f) = f value := rfl

/-- Calls never leave their buffers, and each of them counts the same. -/
theorem calls_ok (runtime : Runtime) {message : List Field} (schemaId : UInt32) (api : Api)
    (count : BitVec 64) (tally : Tally message) :
    ∃ after, Tally.calls runtime message schemaId api count tally = .ok after ∧
      (count ≠ 0 → after.bytes =
        if serializes runtime message api then 6 + byteSizeLong message else 0) ∧
      after.checksum = tally.checksum + BitVec.ofNat 64 (count.toNat *
        if serializes runtime message api then 6 + byteSizeLong message else 0) := by
  let size := if serializes runtime message api then 6 + byteSizeLong message else 0
  let holds : ℕ → Except Fault (Tally message) → Prop := fun k state =>
    ∃ after, state = .ok after ∧ (k ≠ 0 → after.bytes = size) ∧
      after.checksum = tally.checksum + BitVec.ofNat 64 (k * size)
  have hloop : holds count.toNat (Tally.calls runtime message schemaId api count tally) := by
    rw [Tally.calls, forBelow_zero]
    refine rounds_invariant holds ⟨tally, rfl, fun h => absurd rfl h, ?_⟩ ?_
    · rw [zero_mul]
      exact (BitVec.add_zero _).symm
    · intro k _ state hstate
      obtain ⟨before, rfl, -, hchecksum⟩ := hstate
      obtain ⟨buffers, hcall, -⟩ := encodeCall_ok runtime message schemaId api before.buffers
      refine ⟨⟨buffers, size, before.checksum + BitVec.ofNat 64 size⟩, ?_, fun _ => rfl, ?_⟩
      · change Tally.call runtime message schemaId api before = _
        unfold Tally.call
        rw [hcall]
        rfl
      · change before.checksum + BitVec.ofNat 64 size = _
        rw [hchecksum, Nat.add_mul, one_mul, BitVec.ofNat_add, BitVec.add_assoc]
  obtain ⟨after, hafter, hbytes, hchecksum⟩ := hloop
  refine ⟨after, hafter, fun hcount => hbytes fun hzero => hcount ?_, hchecksum⟩
  exact BitVec.eq_of_toNat_eq hzero

theorem measureRound_follows (hiterations : config.iterations ≠ 0) (schemaId : UInt32)
    (testCase : Case) (api : Api) (bytesHint repetition : ℕ)
    (buffers : Buffers (byteSizeLong testCase.message)) :
    (measureRound runtime config testCase.message schemaId api testCase bytesHint repetition
      buffers).wp
      (Follows (Order.act runtime config subject schema) [.steady testCase api repetition]) := by
  obtain ⟨after, hafter, hbytes, hchecksum⟩ := calls_ok runtime schemaId api config.iterations
    ({ buffers, bytes := bytesHint, checksum := 0 } : Tally testCase.message)
  have hround : measureRound runtime config testCase.message schemaId api testCase bytesHint
      repetition buffers = (Order.act runtime config subject schema
        (.steady testCase api repetition)).bind fun _ => .done after.buffers := by
    unfold measureRound
    rw [hafter]
    refine congrArg (Dialogue.perform Op.clock) (funext fun timing => ?_)
    have hline : (⟨apiName api, caseName testCase, repetition, config.iterations, after.bytes,
        timing, after.checksum⟩ : SteadyLine) =
        steadyLine runtime config testCase api repetition timing := by
      rw [hbytes hiterations, hchecksum]
      exact congrArg (SteadyLine.mk _ _ _ _ _ _) (BitVec.zero_add _)
    exact congrArg (fun line => Dialogue.perform (Op.write (CsvLine.steady line)) fun _ =>
      Dialogue.done after.buffers) hline
  rw [hround]
  exact wp_bind_follows (wp_act _ _) fun _ => .finished _

theorem runMeasure_follows (hiterations : config.iterations ≠ 0)
    (hrepetitions : config.repetitions ≠ BitVec.allOnes 32) (schemaId : UInt32) (fuel : ℕ)
    (testCase : Case) (api : Api) (bytesHint : ℕ)
    (buffers : Buffers (byteSizeLong testCase.message)) :
    (runMeasure runtime config testCase.message schemaId api fuel testCase bytesHint buffers).wp
      (Follows (Order.act runtime config subject schema)
        (repeated config.repetitions (.steady testCase api))) := by
  obtain ⟨warm, hwarm, -⟩ := calls_ok runtime schemaId api config.warmupIterations
    ({ buffers, bytes := 0, checksum := 0 } : Tally testCase.message)
  unfold runMeasure
  rw [hwarm, repeated, List.map_eq_flatMap]
  exact wp_repeatUpTo_follows _ hrepetitions (fun i _ buffers =>
    measureRound_follows hiterations schemaId testCase api bytesHint i.toNat buffers) fuel rfl

theorem initialBuffers_ok (message : List Field) (schemaId : UInt32) :
    ∃ buffers, initialBuffers message schemaId = .ok buffers := by
  obtain ⟨framed, hframed, -⟩ := (ByteBuffer.zeros (byteSizeLong message + 6)).filled_zero.write
    (prefixBytes schemaId) (by rw [prefixBytes_length]; omega)
  refine ⟨⟨framed, ByteBuffer.zeros _, [], []⟩, ?_⟩
  unfold initialBuffers AsyncPipeline.store
  rw [hframed]
  rfl

theorem runFramingForMessage_follows (hiterations : config.iterations ≠ 0)
    (hrepetitions : config.repetitions ≠ BitVec.allOnes 32) (schemaId : UInt32)
    (capacity : ℕ → ℕ) (fuel : ℕ) (testCase : Case) :
    (runFramingForMessage runtime config schemaId capacity fuel testCase).wp
      (Follows (Order.act runtime config subject schema) (framingAgenda config testCase)) := by
  obtain ⟨buffers, hbuffers⟩ := initialBuffers_ok testCase.message schemaId
  unfold runFramingForMessage
  dsimp only
  rw [hbuffers, ofFault_ok]
  refine wp_bind_follows
    (runMeasure_follows hiterations hrepetitions schemaId fuel testCase _ _ _) fun _ => ?_
  refine wp_bind_follows
    (runMeasure_follows hiterations hrepetitions schemaId fuel testCase _ _ _) fun _ => ?_
  rw [← List.append_nil (repeated _ _)]
  exact wp_bind_follows
    (runMeasure_follows hiterations hrepetitions schemaId fuel testCase _ _ _) fun _ => .finished _

end Framing

section Network

variable {runtime : Runtime} {config : Config} {subject schema : Bytes}

theorem runNetworkRows_follows (hn : config.networkRepetitions ≠ BitVec.allOnes 32) (fuel : ℕ)
    (path : NetworkPath) :
    (runNetworkRows config subject schema fuel path).wp
      (Follows (Order.act runtime config subject schema) (networkAgenda config path)) := by
  have hloop : (Dialogue.repeatUpTo
      (fun repetition _ => networkRound config subject schema path repetition.toNat)
      config.networkRepetitions fuel 1 ()).wp (Follows (Order.act runtime config subject schema)
        (repeated config.networkRepetitions (.network path))) :=
    wp_repeatUpTo_order (Order.act runtime config subject schema) (.network path) (fun _ => rfl)
      hn fuel rfl
  unfold runNetworkRows networkAgenda
  by_cases hcold : path.coldConnection = true
  · rw [if_pos hcold]
    dsimp only
    rw [if_pos hcold]
    exact hloop
  · rw [if_neg hcold]
    dsimp only
    rw [if_neg hcold]
    exact wp_bind_follows (wp_act (Order.act runtime config subject schema) .acquire) fun _ => hloop

theorem runExceptionalPaths_follows (hn : config.networkRepetitions ≠ BitVec.allOnes 32)
    (fuel : ℕ) :
    (runExceptionalPaths config subject fuel).wp
      (Follows (Order.act runtime config subject schema) (exceptionalAgenda config subject)) := by
  have hpath : ∀ path, (runRequestPath config fuel path).wp
      (Follows (Order.act runtime config subject schema)
        (repeated config.networkRepetitions (.exceptional path))) := fun path =>
    wp_repeatUpTo_order (Order.act runtime config subject schema) (.exceptional path) (fun _ => rfl)
      hn fuel rfl
  refine wp_bind_follows (hpath _) fun _ => wp_bind_follows (hpath _) fun _ => ?_
  exact wp_repeatUpTo_order (Order.act runtime config subject schema) .retry (fun _ => rfl)
    hn fuel rfl

/-- Whatever the network does, the program carries out its agenda from the start. -/
theorem main_follows (runtime : Runtime) (capacity : ℕ → ℕ) (config : Config)
    (subject schema : Bytes) (fuel : ℕ) (hiterations : config.iterations ≠ 0)
    (hrepetitions : config.repetitions ≠ BitVec.allOnes 32)
    (hn : config.networkRepetitions ≠ BitVec.allOnes 32) :
    (main runtime capacity config subject schema fuel).wp
      (Follows (Order.act runtime config subject schema) (agenda config subject)) := by
  refine wp_bind_follows (wp_act (Order.act runtime config subject schema) .acquire) fun _ => ?_
  refine wp_bind_follows (wp_result _ rfl) fun schemaId => ?_
  refine wp_bind_follows (runFramingForMessage_follows hiterations hrepetitions _ _ _ _) fun _ => ?_
  refine wp_bind_follows (runFramingForMessage_follows hiterations hrepetitions _ _ _ _) fun _ => ?_
  refine wp_bind_follows (runFramingForMessage_follows hiterations hrepetitions _ _ _ _) fun _ => ?_
  refine wp_bind_follows (runNetworkRows_follows hn _ _) fun _ => ?_
  refine wp_bind_follows (runNetworkRows_follows hn _ _) fun _ => ?_
  refine wp_bind_follows (runNetworkRows_follows hn _ _) fun _ => ?_
  exact runExceptionalPaths_follows hn _

end Network

end ProtobufKafkaBench.RegistrySession

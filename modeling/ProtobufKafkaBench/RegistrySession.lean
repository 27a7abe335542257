import ProtobufKafkaBench.HttpSessions
import ProtobufKafkaBench.RegistryRequests

/-!
The schema registry benchmark from its first request up to the concurrent registrations:
one registration for the schema ID, the framing measurements, the lookups and registrations
whose replies must be successful, and the exceptional paths, whose replies may be anything.
A loop is cut off after `fuel` rounds.
-/
namespace ProtobufKafkaBench.RegistrySession

open ByteBuffers CommandLine CountedLoops Dialogues HttpSessions MarketEvents RegistryArguments
open SchemaRegistry WireFormat

section Messages

inductive Case
  | int64
  | decimal
  | wide
  deriving DecidableEq

def caseName : Case → Bytes
  | .int64 => ascii "one_string_ten_int64"
  | .decimal => ascii "one_string_ten_decimal_strings"
  | .wide => ascii "ten_strings_fifty_decimal_strings"

def symbol (index : ℕ) : Bytes := ascii "SYMBOL_" ++ decimalDigits (index + 1)

def makeInt64 : List Field :=
  (1, .text (ascii "BTC-USD")) ::
    (List.range 10).map fun i => (i + 2, .int64 (Int64.ofNat (1000001 + i)))

def makeDecimal : List Field :=
  (1, .text (ascii "BTC-USD")) :: (List.range 10).map fun i => (i + 2, .text (decimal i))

def makeWide : List Field :=
  ((List.range 10).map fun i => (i + 1, .text (symbol i))) ++
    (List.range 50).map fun i => (i + 11, .text (decimal i))

def Case.message : Case → List Field
  | .int64 => makeInt64
  | .decimal => makeDecimal
  | .wide => makeWide

end Messages

section Framing

/-- A line about one repetition of a framing measurement. -/
structure SteadyLine where
  api : Bytes
  testCase : Bytes
  repetition : ℕ
  iterations : BitVec 64
  bytes : ℕ
  timing : Timing
  checksum : BitVec 64

inductive CsvLine
  | steady (line : SteadyLine)
  | request (line : RequestLine)

abbrev Program (α : Type) := Session HttpRequest CsvLine α

def apiName : Api → Bytes
  | .cachedIdFramedInPlace => ascii "cached_id_framed_in_place"
  | .cachedIdFramedWithCopy => ascii "cached_id_framed_with_copy"
  | .cachedSerializerString => ascii "cached_serializer_string"

/-- What the loop over the iterations changes. -/
structure Tally (message : List Field) where
  buffers : Buffers (byteSizeLong message)
  bytes : ℕ
  checksum : BitVec 64

variable (runtime : Runtime) (config : Config) (message : List Field) (schemaId : UInt32)
  (api : Api)

def Tally.call (tally : Tally message) : Except Fault (Tally message) := do
  let (bytes, buffers) ← encodeCall runtime message schemaId api tally.buffers
  return { buffers, bytes, checksum := tally.checksum + BitVec.ofNat 64 bytes }

/-- So many calls of the closure. -/
def Tally.calls (count : BitVec 64) (tally : Tally message) : Except Fault (Tally message) :=
  forBelow (fun _ state => state.bind (Tally.call runtime message schemaId api)) count 0
    (.ok tally)

def ofFault {α : Type} (result : Except Fault α) : Program α :=
  Dialogue.ofExcept (result.mapError .fault)

/-- A repetition of `run_measure`. -/
def measureRound (testCase : Case) (bytesHint repetition : ℕ)
    (buffers : Buffers (byteSizeLong message)) : Program (Buffers (byteSizeLong message)) := do
  let tally ← ofFault (Tally.calls runtime message schemaId api config.iterations
    { buffers, bytes := bytesHint, checksum := 0 })
  let timing ← Dialogue.ask .clock
  writeLine (.steady {
    api := apiName api
    testCase := caseName testCase
    repetition
    iterations := config.iterations
    bytes := tally.bytes
    timing
    checksum := tally.checksum })
  return tally.buffers

def runMeasure (fuel : ℕ) (testCase : Case) (bytesHint : ℕ)
    (buffers : Buffers (byteSizeLong message)) : Program (Buffers (byteSizeLong message)) := do
  let warm ← ofFault (Tally.calls runtime message schemaId api config.warmupIterations
    { buffers, bytes := 0, checksum := 0 })
  Dialogue.repeatUpTo
    (fun repetition buffers =>
      measureRound runtime config message schemaId api testCase bytesHint repetition.toNat buffers)
    config.repetitions fuel 1 warm.buffers

/-- The buffers of `run_framing_for_message` before the first measurement. -/
def initialBuffers : Except Fault (Buffers (byteSizeLong message)) := do
  let framed ← AsyncPipeline.store (ByteBuffer.zeros (byteSizeLong message + 6)) 0
    (prefixBytes schemaId)
  return { framed, payload := ByteBuffer.zeros _, serialized := [], framedString := [] }

/-- `capacity` is what `reserve` makes the capacity of an empty string for a given size. -/
def runFramingForMessage (capacity : ℕ → ℕ) (fuel : ℕ) (testCase : Case) : Program Unit := do
  let message := testCase.message
  let size := byteSizeLong message + 6
  let buffers ← ofFault (initialBuffers message schemaId)
  let buffers ←
    runMeasure runtime config message schemaId .cachedIdFramedInPlace fuel testCase size buffers
  let buffers ←
    runMeasure runtime config message schemaId .cachedIdFramedWithCopy fuel testCase size buffers
  let _ ← runMeasure runtime config message schemaId .cachedSerializerString fuel testCase
    (capacity size) buffers

end Framing

section Network

variable (config : Config) (subject schema : Bytes)

def registerSchema : Program UInt32 := do
  let result ← send (registrationRequest (httpOptions config) config.registryUrl subject schema)
  Dialogue.ofExcept ((responseId result).mapError .exception)

/-- The two flags of `run_network_rows`. -/
structure NetworkPath where
  coldConnection : Bool
  registration : Bool

def NetworkPath.api (path : NetworkPath) : Bytes :=
  if path.registration then ascii "cold_register"
  else if path.coldConnection then ascii "cold_lookup_new_connection"
  else ascii "registry_lookup_keepalive"

def NetworkPath.testCase (path : NetworkPath) : Bytes :=
  if path.registration then ascii "schema_registry_registration"
  else ascii "schema_registry_lookup"

def NetworkPath.request (path : NetworkPath) (repetition : ℕ) : HttpRequest :=
  if path.registration then
    registrationRequest (httpOptions config) config.registryUrl
      (numberedSubject subject (ascii "_") repetition) schema
  else latestRequest (httpOptions config) config.registryUrl subject 30000

/-- The text of the exception for a status outside the 200s. -/
def statusError (request : HttpRequest) (result : HttpResult) : Bytes :=
  ascii "Schema Registry " ++ request.method.text ++ ascii " " ++ request.url ++
    ascii " returned HTTP " ++ decimalText result.status.toInt ++ ascii ": " ++ result.body

def networkLine (path : NetworkPath) (repetition : ℕ) (timing : Timing) (result : HttpResult)
    (id : UInt32) : RequestLine where
  api := path.api
  testCase := path.testCase
  repetition
  bytes := result.body.length
  elapsed := timing.elapsed
  rate := timing.rate
  checksum := decimalDigits id.toNat

/-- A repetition of `run_network_rows`. A handle that could not be had makes the request
of a cold connection fail. -/
def networkRound (path : NetworkPath) (repetition : ℕ) : Program Unit := do
  let request := path.request config subject schema repetition
  let result ← send request
  let timing ← Dialogue.ask .clock
  if result.status < 200 ∨ 300 ≤ result.status then raise (statusError request result)
  else
    let id ← Dialogue.ofExcept ((responseId result).mapError .exception)
    writeLine (.request (networkLine path repetition timing result id))

def runNetworkRows (fuel : ℕ) (path : NetworkPath) : Program Unit := do
  if path.coldConnection then pure () else acquire
  Dialogue.repeatUpTo (fun repetition _ => networkRound config subject schema path repetition.toNat)
    config.networkRepetitions fuel 1 ()

end Network

section Exceptional

variable (config : Config) (subject : Bytes)

/-- The arguments of the closure `run_request_path`. -/
structure RequestPath where
  api : Bytes
  request : HttpRequest
  expectedCase : Bytes

def cacheMiss : RequestPath where
  api := ascii "cache_miss_404"
  request :=
    latestRequest (httpOptions config) config.registryUrl (subject ++ ascii "_missing") 5000
  expectedCase := ascii "schema_registry_cache_miss"

def unavailable : RequestPath where
  api := ascii "registry_unavailable"
  request := latestRequest (httpOptions config) config.failureUrl (ascii "unavailable") 500
  expectedCase := ascii "schema_registry_unavailable"

def writeControlRow (api testCase : Bytes) (repetition : ℕ) (timing : Timing)
    (reply : Option HttpResult) : Program Unit :=
  writeLine (.request (controlRow api testCase repetition timing.elapsed timing.rate reply))

/-- A repetition of `run_request_path`: nothing that comes back ends the program. -/
def requestRound (path : RequestPath) (repetition : ℕ) : Program Unit := do
  acquire
  let reply ← Dialogue.attempt (send path.request)
  let timing ← Dialogue.ask .clock
  writeControlRow path.api path.expectedCase repetition timing reply.toOption

def runRequestPath (fuel : ℕ) (path : RequestPath) : Program Unit :=
  Dialogue.repeatUpTo (fun repetition _ => requestRound path repetition.toNat)
    config.networkRepetitions fuel 1 ()

def retryFirst : HttpRequest :=
  latestRequest (httpOptions config) config.failureUrl (ascii "retry") 500

def retrySecond : HttpRequest :=
  latestRequest (httpOptions config) config.registryUrl subject 30000

/-- A failing request and then one that may succeed, in one measured line. -/
def retryRound (repetition : ℕ) : Program Unit := do
  let failed ← Dialogue.ask .handle
  let successful ← Dialogue.ask .handle
  if failed = false ∨ successful = false then raise (ascii "curl_easy_init failed")
  else
    let _ ← Dialogue.attempt (send (retryFirst config))
    let reply ← Dialogue.attempt (send (retrySecond config subject))
    let timing ← Dialogue.ask .clock
    writeControlRow (ascii "retry_failure_then_success") (ascii "schema_registry_retry")
      repetition timing reply.toOption

def runExceptionalPaths (fuel : ℕ) : Program Unit := do
  runRequestPath config fuel (cacheMiss config subject)
  runRequestPath config fuel (unavailable config)
  Dialogue.repeatUpTo (fun repetition _ => retryRound config subject repetition.toNat)
    config.networkRepetitions fuel 1 ()

end Exceptional

section Main

def keepaliveLookup : NetworkPath := ⟨false, false⟩
def coldLookup : NetworkPath := ⟨true, false⟩
def registrations : NetworkPath := ⟨false, true⟩

def baseSubject (runId : Bytes) : Bytes := ascii "protobuf_encoding_benchmark_" ++ runId

variable (runtime : Runtime) (capacity : ℕ → ℕ) (config : Config) (subject schema : Bytes)

/-- `main` between the opening of the table and `run_concurrent_registration`. -/
def main (fuel : ℕ) : Program Unit := do
  acquire
  let schemaId ← registerSchema config subject schema
  runFramingForMessage runtime config schemaId capacity fuel .int64
  runFramingForMessage runtime config schemaId capacity fuel .decimal
  runFramingForMessage runtime config schemaId capacity fuel .wide
  runNetworkRows config subject schema fuel keepaliveLookup
  runNetworkRows config subject schema fuel coldLookup
  runNetworkRows config subject schema fuel registrations
  runExceptionalPaths config subject fuel

end Main

section Ends

variable {config : Config} {subject schema : Bytes} {fuel : ℕ}

theorem whole_ofFault {α : Type} (result : Except Fault α) : (ofFault result).Whole :=
  Dialogue.whole_ofExcept _

theorem runMeasure_whole (runtime : Runtime) (message : List Field) (schemaId : UInt32) (api : Api)
    (testCase : Case) (bytesHint : ℕ) (buffers : Buffers (byteSizeLong message))
    (hrepetitions : config.repetitions ≠ BitVec.allOnes 32)
    (hfuel : config.repetitions.toNat < fuel) :
    (runMeasure runtime config message schemaId api fuel testCase bytesHint buffers).Whole := by
  refine (whole_ofFault _).bind fun warm => ?_
  refine Dialogue.whole_repeatUpTo _ hrepetitions (fun repetition buffers => ?_) hfuel rfl
    (Nat.zero_le _) _
  exact (whole_ofFault _).bind fun tally => fun timing =>
    (whole_writeLine _).bind fun _ => trivial

theorem runFramingForMessage_whole (runtime : Runtime) (schemaId : UInt32) (capacity : ℕ → ℕ)
    (testCase : Case) (hrepetitions : config.repetitions ≠ BitVec.allOnes 32)
    (hfuel : config.repetitions.toNat < fuel) :
    (runFramingForMessage runtime config schemaId capacity fuel testCase).Whole := by
  have hmeasure : ∀ api bytesHint buffers, (runMeasure runtime config testCase.message schemaId api
      fuel testCase bytesHint buffers).Whole := fun api bytesHint buffers =>
    runMeasure_whole runtime _ schemaId api testCase bytesHint buffers hrepetitions hfuel
  exact (whole_ofFault _).bind fun _ => (hmeasure _ _ _).bind fun _ => (hmeasure _ _ _).bind
    fun _ => (hmeasure _ _ _).bind fun _ => trivial

theorem networkRound_whole (path : NetworkPath) (repetition : ℕ) :
    (networkRound config subject schema path repetition).Whole := by
  refine (whole_send _).bind fun result => fun timing => ?_
  change (if _ then raise _ else _ : Program Unit).Whole
  split
  · exact whole_raise _
  · exact (Dialogue.whole_ofExcept _).bind fun id => whole_writeLine _

theorem runNetworkRows_whole (path : NetworkPath)
    (hn : config.networkRepetitions ≠ BitVec.allOnes 32)
    (hfuel : config.networkRepetitions.toNat < fuel) :
    (runNetworkRows config subject schema fuel path).Whole := by
  have hloop := Dialogue.whole_repeatUpTo
    (fun repetition _ => networkRound config subject schema path repetition.toNat) hn
    (fun repetition _ => networkRound_whole path repetition.toNat) hfuel
    (show (1 : BitVec 32).toNat = 0 + 1 from rfl) (Nat.zero_le _) ()
  unfold runNetworkRows
  split
  · exact hloop
  · exact whole_acquire.bind fun _ => hloop

theorem requestRound_whole (path : RequestPath) (repetition : ℕ) :
    (requestRound path repetition).Whole :=
  whole_acquire.bind fun _ => (whole_send _).attempt.bind fun _ => fun _ => whole_writeLine _

theorem retryRound_whole (repetition : ℕ) : (retryRound config subject repetition).Whole := by
  intro failed successful
  change (if _ then raise _ else _ : Program Unit).Whole
  split
  · exact whole_raise _
  · exact (whole_send _).attempt.bind fun _ => (whole_send _).attempt.bind fun _ => fun _ =>
      whole_writeLine _

theorem runExceptionalPaths_whole (hn : config.networkRepetitions ≠ BitVec.allOnes 32)
    (hfuel : config.networkRepetitions.toNat < fuel) :
    (runExceptionalPaths config subject fuel).Whole := by
  have hloop : ∀ body : ℕ → Program Unit, (∀ repetition, (body repetition).Whole) →
      (Dialogue.repeatUpTo (fun repetition _ => body repetition.toNat) config.networkRepetitions
        fuel 1 ()).Whole := fun body hbody =>
    Dialogue.whole_repeatUpTo _ hn (fun repetition _ => hbody repetition.toNat) hfuel
      (show (1 : BitVec 32).toNat = 0 + 1 from rfl) (Nat.zero_le _) ()
  exact (hloop _ (requestRound_whole _)).bind fun _ =>
    (hloop _ (requestRound_whole _)).bind fun _ => hloop _ retryRound_whole

/-- With enough fuel the program comes to its end, whatever it is answered. -/
theorem main_whole (runtime : Runtime) (capacity : ℕ → ℕ) (subject schema : Bytes)
    (hrepetitions : config.repetitions ≠ BitVec.allOnes 32)
    (hn : config.networkRepetitions ≠ BitVec.allOnes 32)
    (hfuel : config.repetitions.toNat < fuel) (hfuel' : config.networkRepetitions.toNat < fuel) :
    (main runtime capacity config subject schema fuel).Whole := by
  have hframing : ∀ schemaId testCase,
      (runFramingForMessage runtime config schemaId capacity fuel testCase).Whole :=
    fun schemaId testCase =>
      runFramingForMessage_whole runtime schemaId capacity testCase hrepetitions hfuel
  have hrows : ∀ path, (runNetworkRows config subject schema fuel path).Whole :=
    fun path => runNetworkRows_whole path hn hfuel'
  have hregister : (registerSchema config subject schema).Whole :=
    (whole_send _).bind fun _ => Dialogue.whole_ofExcept _
  refine whole_acquire.bind fun _ => hregister.bind fun schemaId => ?_
  refine (hframing schemaId .int64).bind fun _ => (hframing schemaId .decimal).bind fun _ =>
    (hframing schemaId .wide).bind fun _ => ?_
  exact (hrows _).bind fun _ => (hrows _).bind fun _ => (hrows _).bind fun _ =>
    runExceptionalPaths_whole hn hfuel'

end Ends

end ProtobufKafkaBench.RegistrySession

import ProtobufKafkaBench.RegistrationBodies
import ProtobufKafkaBench.RegistryArguments
import ProtobufKafkaBench.ResponseIds

/-!
The requests of the schema registry benchmark and the lines it writes about them.
A request is given by what `http_request` is called with; what comes back, if
anything does, is up to the network. A line is written piece by piece, with the
two measured numbers as the stream prints them.
-/
namespace ProtobufKafkaBench.SchemaRegistry

open ByteBuffers RegistryArguments

section Requests

structure HttpOptions where
  userPassword : Bytes
  insecureTls : Bool
  deriving DecidableEq

/-- What `main` stores in `http_options`. -/
def httpOptions (config : Config) : HttpOptions where
  userPassword := if config.username = [] then []
    else config.username ++ ascii ":" ++ config.password
  insecureTls := config.insecureTls

inductive Method
  | get
  | post
  deriving DecidableEq

def Method.text : Method → Bytes
  | .get => ascii "GET"
  | .post => ascii "POST"

structure HttpRequest where
  url : Bytes
  method : Method
  body : Bytes
  header : Bytes
  timeoutMs : ℕ
  options : HttpOptions
  deriving DecidableEq

/-- The one header of every request. -/
def contentType : Bytes := ascii "Content-Type: application/vnd.schemaregistry.v1+json"

def versionsUrl (registryUrl subject : Bytes) : Bytes :=
  registryUrl ++ ascii "/subjects/" ++ subject ++ ascii "/versions"

/-- A registration, sent with the default timeout. -/
def registrationRequest (options : HttpOptions) (registryUrl subject schema : Bytes) :
    HttpRequest where
  url := versionsUrl registryUrl subject
  method := .post
  body := RegistrationBodies.SchemaRegistry.registrationBody schema
  header := contentType
  timeoutMs := 30000
  options

/-- A lookup of the latest version of a subject. -/
def latestRequest (options : HttpOptions) (registryUrl subject : Bytes) (timeoutMs : ℕ) :
    HttpRequest where
  url := versionsUrl registryUrl subject ++ ascii "/latest"
  method := .get
  body := []
  header := contentType
  timeoutMs
  options

/-- `subject + suffix + std::to_string(repetition)`. -/
def numberedSubject (subject suffix : Bytes) (repetition : ℕ) : Bytes :=
  subject ++ suffix ++ decimalDigits repetition

end Requests

section Lines

/-- A line about one request. `elapsed` and `rate` are the measured numbers as printed. -/
structure RequestLine where
  api : Bytes
  testCase : Bytes
  repetition : ℕ
  bytes : ℕ
  elapsed : Bytes
  rate : Bytes
  checksum : Bytes
  deriving DecidableEq

/-- The operands of the output statement, in order. -/
def RequestLine.pieces (line : RequestLine) : List Bytes :=
  [ascii "registry,confluent_schema_registry,http,", line.api, ascii ",", line.testCase,
    ascii ",", decimalDigits line.repetition, ascii ",1,", decimalDigits line.bytes, ascii ",",
    line.elapsed, ascii ",", line.elapsed, ascii ",", line.rate, ascii ",", line.checksum,
    [10]]

def RequestLine.text (line : RequestLine) : Bytes := line.pieces.flatten

/-- The arguments of `write_control_row`: a failed request leaves status and size at zero. -/
def controlRow (api testCase : Bytes) (repetition : ℕ) (elapsed rate : Bytes)
    (reply : Option HttpResult) : RequestLine where
  api
  testCase
  repetition
  bytes := match reply with
    | some result => result.body.length
    | none => 0
  elapsed
  rate
  checksum := match reply with
    | some result => decimalText result.status.toInt
    | none => decimalText 0

end Lines

end ProtobufKafkaBench.SchemaRegistry

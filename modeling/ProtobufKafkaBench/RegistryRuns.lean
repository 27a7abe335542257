import ProtobufKafkaBench.RegistryAgenda

/-!
What holds of the schema registry benchmark whatever the network does. Its requests and
its lines are the planned ones, in order, as far as it gets; each line tells what came back
for the request before it; and it stops early only for want of a handle or after a reply
that must be successful and is not.
-/
namespace ProtobufKafkaBench.RegistrySession

open ByteBuffers CommandLine CountedLoops Dialogues HttpSessions MarketEvents RegistryArguments
open SchemaRegistry WireFormat

section Orders

variable (runtime : Runtime) (config : Config) (subject schema : Bytes)

abbrev Reply := Except Bytes HttpResult

/-- A reply from which an ID can be taken. -/
def HasId (reply : Reply) : Prop := ∃ result id, reply = .ok result ∧ responseId result = .ok id

def noHandle : Failure := .exception (.runtimeError (ascii "curl_easy_init failed"))

/-- The events of an order up to some moment, in each of the ways it can go. -/
inductive Goes : Order → List (HttpEvent HttpRequest CsvLine) → Outcome Failure Unit → Prop
  | start (order : Order) : Goes order [] .running
  | refused : Goes .acquire [handled false] (.failed noHandle)
  | acquired : Goes .acquire [handled true] (.returned ())
  | bootstrapRejected (reply : Reply) (error : CliError) : ¬ HasId reply →
      Goes .bootstrap
        [replied (registrationRequest (httpOptions config) config.registryUrl subject schema)
          reply] (.failed (.exception error))
  | bootstrapped (reply : Reply) : HasId reply →
      Goes .bootstrap
        [replied (registrationRequest (httpOptions config) config.registryUrl subject schema)
          reply] (.returned ())
  | measured (testCase : Case) (api : Api) (repetition : ℕ) (timing : Timing) :
      Goes (.steady testCase api repetition) [timed timing] .running
  | steadyWritten (testCase : Case) (api : Api) (repetition : ℕ) (timing : Timing) :
      Goes (.steady testCase api repetition)
        [timed timing,
          wrote (CsvLine.steady (steadyLine runtime config testCase api repetition timing))]
        (.returned ())
  | unanswered (path : NetworkPath) (repetition : ℕ) (what : Bytes) :
      Goes (.network path repetition)
        [replied (path.request config subject schema repetition) (.error what)]
        (.failed (.exception (.runtimeError what)))
  | answered (path : NetworkPath) (repetition : ℕ) (result : HttpResult) :
      Goes (.network path repetition)
        [replied (path.request config subject schema repetition) (.ok result)] .running
  | rejected (path : NetworkPath) (repetition : ℕ) (result : HttpResult) (timing : Timing)
      (error : CliError) : ¬ HasId (.ok result) →
      Goes (.network path repetition)
        [replied (path.request config subject schema repetition) (.ok result),
          timed timing] (.failed (.exception error))
  | accepted (path : NetworkPath) (repetition : ℕ) (result : HttpResult) (timing : Timing) :
      HasId (.ok result) →
      Goes (.network path repetition)
        [replied (path.request config subject schema repetition) (.ok result),
          timed timing] .running
  | networkWritten (path : NetworkPath) (repetition : ℕ) (result : HttpResult) (timing : Timing)
      (id : UInt32) : responseId result = .ok id →
      Goes (.network path repetition)
        [replied (path.request config subject schema repetition) (.ok result),
          timed timing,
          wrote (CsvLine.request (networkLine path repetition timing result id))] (.returned ())
  | exceptionalRefused (path : RequestPath) (repetition : ℕ) :
      Goes (.exceptional path repetition) [handled false] (.failed noHandle)
  | exceptionalAcquired (path : RequestPath) (repetition : ℕ) :
      Goes (.exceptional path repetition) [handled true] .running
  | exceptionalSent (path : RequestPath) (repetition : ℕ) (reply : Reply) :
      Goes (.exceptional path repetition) [handled true, replied path.request reply] .running
  | exceptionalTimed (path : RequestPath) (repetition : ℕ) (reply : Reply) (timing : Timing) :
      Goes (.exceptional path repetition)
        [handled true, replied path.request reply, timed timing] .running
  | exceptionalWritten (path : RequestPath) (repetition : ℕ) (reply : Reply) (timing : Timing) :
      Goes (.exceptional path repetition)
        [handled true, replied path.request reply, timed timing,
          wrote (CsvLine.request (controlRow path.api path.expectedCase repetition timing.elapsed
            timing.rate reply.toOption))] (.returned ())
  | firstHandle (repetition : ℕ) (failed : Bool) :
      Goes (.retry repetition) [handled failed] .running
  | retryRefused (repetition : ℕ) (failed successful : Bool) :
      failed = false ∨ successful = false →
      Goes (.retry repetition) [handled failed, handled successful] (.failed noHandle)
  | retryAcquired (repetition : ℕ) :
      Goes (.retry repetition) [handled true, handled true] .running
  | retryFailed (repetition : ℕ) (first : Reply) :
      Goes (.retry repetition)
        [handled true, handled true, replied (retryFirst config) first] .running
  | retrySent (repetition : ℕ) (first reply : Reply) :
      Goes (.retry repetition)
        [handled true, handled true, replied (retryFirst config) first,
          replied (retrySecond config subject) reply] .running
  | retryTimed (repetition : ℕ) (first reply : Reply) (timing : Timing) :
      Goes (.retry repetition)
        [handled true, handled true, replied (retryFirst config) first,
          replied (retrySecond config subject) reply, timed timing] .running
  | retryWritten (repetition : ℕ) (first reply : Reply) (timing : Timing) :
      Goes (.retry repetition)
        [handled true, handled true, replied (retryFirst config) first,
          replied (retrySecond config subject) reply, timed timing,
          wrote (CsvLine.request (controlRow (ascii "retry_failure_then_success")
            (ascii "schema_registry_retry") repetition timing.elapsed timing.rate
            reply.toOption))] (.returned ())

/-- How an order ends the program: without a handle, or after a reply that must be
successful and is not. -/
def Refused (config : Config) (subject schema : Bytes)
    (last : List (HttpEvent HttpRequest CsvLine)) :
    Order → Prop
  | .acquire | .exceptional _ _ => last = [handled false]
  | .bootstrap => ∃ reply, ¬ HasId reply ∧ last =
      [replied (registrationRequest (httpOptions config) config.registryUrl subject schema) reply]
  | .steady _ _ _ => False
  | .network path repetition => ∃ reply rest, ¬ HasId reply ∧ lines rest = [] ∧
      last = replied (path.request config subject schema repetition) reply :: rest
  | .retry _ => ∃ failed successful, (failed = false ∨ successful = false) ∧
      last = [handled failed, handled successful]

end Orders

section Specs

variable {runtime : Runtime} {config : Config} {subject schema : Bytes}

theorem hasId_iff {result : HttpResult} :
    HasId (.ok result) ↔ ∃ id, responseId result = .ok id := by
  constructor
  · intro h
    obtain ⟨other, id, heq, hid⟩ := h
    obtain rfl := Except.ok.inj heq
    exact ⟨id, hid⟩
  · intro h
    obtain ⟨id, hid⟩ := h
    exact ⟨result, id, rfl, hid⟩

theorem not_hasId_error (what : Bytes) : ¬ HasId (.error what) := by
  intro h
  obtain ⟨result, id, heq, -⟩ := h
  cases heq

theorem not_hasId_of_error {result : HttpResult} {error : CliError}
    (h : responseId result = .error error) : ¬ HasId (.ok result) := by
  rw [hasId_iff, h]
  intro hid
  obtain ⟨id, hid⟩ := hid
  cases hid

theorem toOption_mapError {α ε δ : Type} (f : ε → δ) (result : Except ε α) :
    (result.mapError f).toOption = result.toOption := by
  cases result <;> rfl

theorem networkRound_goes (path : NetworkPath) (repetition : ℕ) :
    (networkRound config subject schema path repetition).wp
      (Goes runtime config subject schema (.network path repetition)) := by
  unfold networkRound
  rw [wp_send]
  refine ⟨.start _, fun result => ?_, fun what => .unanswered path repetition what⟩
  rw [wp_ask]
  refine ⟨.answered path repetition result, fun timing => ?_⟩
  by_cases hstatus : result.status < 200 ∨ 300 ≤ result.status
  · rw [if_pos hstatus]
    refine .rejected path repetition result timing _ ?_
    rw [hasId_iff]
    intro h
    obtain ⟨id, hid⟩ := h
    exact (not_successful_iff result).mpr hstatus (responseId_eq_ok_iff.mp hid).1
  · rw [if_neg hstatus]
    cases hid : responseId result with
    | error error => exact .rejected path repetition result timing error (not_hasId_of_error hid)
    | ok id =>
      refine ⟨?_, fun _ => .networkWritten path repetition result timing id hid⟩
      exact .accepted path repetition result timing (hasId_iff.mpr ⟨id, hid⟩)

theorem registerSchema_goes :
    ((registerSchema config subject schema).bind fun _ => .done ()).wp
      (Goes runtime config subject schema .bootstrap) := by
  refine ⟨.start _, fun reply => ?_⟩
  cases reply with
  | error what => exact .bootstrapRejected _ _ (not_hasId_error what)
  | ok result =>
    change ((Dialogue.ofExcept ((responseId result).mapError Failure.exception)).bind
      fun _ => Dialogue.done ()).wp _
    cases hid : responseId result with
    | error error => exact .bootstrapRejected _ error (not_hasId_of_error hid)
    | ok id => exact .bootstrapped _ (hasId_iff.mpr ⟨id, hid⟩)

theorem requestRound_goes (path : RequestPath) (repetition : ℕ) :
    (requestRound path repetition).wp
      (Goes runtime config subject schema (.exceptional path repetition)) := by
  unfold requestRound
  rw [wp_acquire_bind]
  refine ⟨.start _, ?_, .exceptionalRefused path repetition⟩
  rw [wp_attempt_send]
  refine ⟨.exceptionalAcquired path repetition, fun reply => ?_⟩
  rw [wp_ask]
  refine ⟨.exceptionalSent path repetition reply, fun timing => ?_⟩
  rw [writeControlRow, wp_writeLine, toOption_mapError]
  exact ⟨.exceptionalTimed path repetition reply timing,
    .exceptionalWritten path repetition reply timing⟩

theorem retryRound_goes (repetition : ℕ) :
    (retryRound config subject repetition).wp
      (Goes runtime config subject schema (.retry repetition)) := by
  unfold retryRound
  rw [wp_ask]
  refine ⟨.start _, fun failed => ?_⟩
  rw [wp_ask]
  refine ⟨.firstHandle repetition failed, fun successful => ?_⟩
  by_cases hnone : failed = false ∨ successful = false
  · rw [if_pos hnone]
    exact .retryRefused repetition failed successful hnone
  · rw [if_neg hnone]
    simp only [not_or, Bool.not_eq_false] at hnone
    obtain ⟨rfl, rfl⟩ := hnone
    rw [wp_attempt_send]
    refine ⟨.retryAcquired repetition, fun first => ?_⟩
    rw [wp_attempt_send]
    refine ⟨.retryFailed repetition first, fun reply => ?_⟩
    rw [wp_ask]
    refine ⟨.retrySent repetition first reply, fun timing => ?_⟩
    rw [writeControlRow, wp_writeLine, toOption_mapError]
    exact ⟨.retryTimed repetition first reply timing, .retryWritten repetition first reply timing⟩

/-- One case for each kind of order. -/
theorem act_goes (order : Order) :
    (Order.act runtime config subject schema order).wp
      (Goes runtime config subject schema order) := by
  cases order with
  | acquire => exact wp_acquire.mpr ⟨.start _, .acquired, .refused⟩
  | bootstrap => exact registerSchema_goes
  | steady testCase api repetition =>
    refine ⟨.start _, fun timing => ⟨.measured testCase api repetition timing, fun _ => ?_⟩⟩
    exact .steadyWritten testCase api repetition timing
  | network path repetition => exact networkRound_goes path repetition
  | exceptional path repetition => exact requestRound_goes path repetition
  | retry repetition => exact retryRound_goes repetition

theorem refused_of_failed {order : Order}
    {last : List (HttpEvent HttpRequest CsvLine)} {failure : Failure}
    (play : Plays (Order.act runtime config subject schema order) last (.failed failure)) :
    Refused config subject schema last order ∧ ∃ error, failure = .exception error := by
  have hgoes := wp_iff_plays.mp (act_goes order) _ _ play
  cases hgoes with
  | refused => exact ⟨rfl, _, rfl⟩
  | bootstrapRejected reply error hid => exact ⟨⟨reply, hid, rfl⟩, _, rfl⟩
  | unanswered path repetition what =>
    exact ⟨⟨.error what, [], not_hasId_error what, rfl, rfl⟩, _, rfl⟩
  | rejected path repetition result timing error hid =>
    exact ⟨⟨.ok result, [timed timing], hid, rfl, rfl⟩, _, rfl⟩
  | exceptionalRefused path repetition => exact ⟨rfl, _, rfl⟩
  | retryRefused repetition failed successful hnone =>
    exact ⟨⟨failed, successful, hnone, rfl⟩, _, rfl⟩

/-- With its handles and its schema ID the program is stopped only where a lookup or a
numbered registration must be successful. -/
theorem Refused.network {order : Order} {last : List (HttpEvent HttpRequest CsvLine)}
    (h : Refused config subject schema last order) (hhandle : handled false ∉ last)
    (hid : ∀ reply, replied
      (registrationRequest (httpOptions config) config.registryUrl subject schema) reply ∈ last →
        HasId reply) :
    ∃ path repetition reply, order = .network path repetition ∧ ¬ HasId reply ∧
      replied (path.request config subject schema repetition) reply ∈ last := by
  cases order with
  | acquire | exceptional =>
    rw [show last = [handled false] from h] at hhandle
    exact absurd List.mem_cons_self hhandle
  | bootstrap =>
    obtain ⟨reply, hreply, rfl⟩ := h
    exact absurd (hid reply List.mem_cons_self) hreply
  | steady => exact h.elim
  | network path repetition =>
    obtain ⟨reply, rest, hreply, -, rfl⟩ := h
    exact ⟨path, repetition, reply, rfl, hreply, List.mem_cons_self⟩
  | retry =>
    obtain ⟨failed, successful, hnone, rfl⟩ := h
    rcases hnone with rfl | rfl <;> simp at hhandle

end Specs

section Plans

variable (config : Config) (subject schema : Bytes)

/-- API, case and repetition of a line. -/
abbrev RowKey := Bytes × Bytes × ℕ

def CsvLine.key : CsvLine → RowKey
  | .steady line => (line.api, line.testCase, line.repetition)
  | .request line => (line.api, line.testCase, line.repetition)

def rowKey (event : HttpEvent HttpRequest CsvLine) : Option RowKey := (lineOf event).map CsvLine.key

def Order.requests : Order → List HttpRequest
  | .acquire | .steady _ _ _ => []
  | .bootstrap => [registrationRequest (httpOptions config) config.registryUrl subject schema]
  | .network path repetition => [path.request config subject schema repetition]
  | .exceptional path _ => [path.request]
  | .retry _ => [retryFirst config, retrySecond config subject]

def Order.rows : Order → List RowKey
  | .acquire | .bootstrap => []
  | .steady testCase api repetition => [(apiName api, caseName testCase, repetition)]
  | .network path repetition => [(path.api, path.testCase, repetition)]
  | .exceptional path repetition => [(path.api, path.expectedCase, repetition)]
  | .retry repetition =>
    [(ascii "retry_failure_then_success", ascii "schema_registry_retry", repetition)]

/-- The requests of a run in which nothing goes wrong. -/
def plannedRequests : List HttpRequest :=
  let options := httpOptions config
  let latest := latestRequest options config.registryUrl subject 30000
  let count := config.networkRepetitions.toNat
  [registrationRequest options config.registryUrl subject schema] ++
    (List.replicate count latest ++ (List.replicate count latest ++
      (((List.range' 1 count).map fun repetition =>
        registrationRequest options config.registryUrl
          (numberedSubject subject (ascii "_") repetition) schema) ++
        (List.replicate count (cacheMiss config subject).request ++
          (List.replicate count (unavailable config).request ++
            (List.replicate count [retryFirst config, retrySecond config subject]).flatten)))))

/-- The lines for each repetition, by API and case. -/
def numberedRows (repetitions : BitVec 32) (name : Bytes × Bytes) : List RowKey :=
  (List.range' 1 repetitions.toNat).map fun repetition => (name.1, name.2, repetition)

def framingNames : List (Bytes × Bytes) :=
  [Case.int64, .decimal, .wide].flatMap fun testCase =>
    [Api.cachedIdFramedInPlace, .cachedIdFramedWithCopy, .cachedSerializerString].map fun api =>
      (apiName api, caseName testCase)

def networkNames : List (Bytes × Bytes) :=
  [(ascii "registry_lookup_keepalive", ascii "schema_registry_lookup"),
    (ascii "cold_lookup_new_connection", ascii "schema_registry_lookup"),
    (ascii "cold_register", ascii "schema_registry_registration"),
    (ascii "cache_miss_404", ascii "schema_registry_cache_miss"),
    (ascii "registry_unavailable", ascii "schema_registry_unavailable"),
    (ascii "retry_failure_then_success", ascii "schema_registry_retry")]

/-- The lines of a run in which nothing goes wrong. -/
def plannedRows : List RowKey :=
  framingNames.flatMap (numberedRows config.repetitions) ++
    networkNames.flatMap (numberedRows config.networkRepetitions)

variable {config subject schema}

theorem repeated_flatMap {κ : Type} (repetitions : BitVec 32) (order : ℕ → Order)
    (f : Order → List κ) :
    (repeated repetitions order).flatMap f =
      (List.range' 1 repetitions.toNat).flatMap fun repetition => f (order repetition) :=
  List.flatMap_map _ _ _

theorem agenda_requests :
    (agenda config subject).flatMap (Order.requests config subject schema) =
      plannedRequests config subject schema := by
  have hnone : ∀ count, (List.range' 1 count).flatMap (fun _ => ([] : List HttpRequest)) = [] := by
    intro count
    simp
  have hsame : ∀ (count : ℕ) (request : HttpRequest),
      (List.range' 1 count).flatMap (fun _ => [request]) = List.replicate count request := by
    intro count request
    rw [← List.map_eq_flatMap, List.map_const', List.length_range']
  have hpair : ∀ (count : ℕ) (pair : List HttpRequest),
      (List.range' 1 count).flatMap (fun _ => pair) = (List.replicate count pair).flatten := by
    intro count pair
    rw [List.flatMap_def, List.map_const', List.length_range']
  simp only [agenda, framingAgenda, networkAgenda, exceptionalAgenda, List.flatMap_append,
    repeated_flatMap, Order.requests, keepaliveLookup, coldLookup, registrations]
  simp [hnone, hsame, hpair, Order.requests, plannedRequests, NetworkPath.request,
    ← List.map_eq_flatMap]

theorem agenda_rows : (agenda config subject).flatMap Order.rows = plannedRows config := by
  simp only [agenda, framingAgenda, networkAgenda, exceptionalAgenda, List.flatMap_append,
    repeated_flatMap, Order.rows, keepaliveLookup, coldLookup, registrations]
  simp [Order.rows, plannedRows, framingNames, networkNames, numberedRows,
    ← List.map_eq_flatMap, NetworkPath.api, NetworkPath.testCase, cacheMiss, unavailable]

end Plans

section Runs

variable {runtime : Runtime} {capacity : ℕ → ℕ} {config : Config} {subject schema : Bytes}
  {fuel : ℕ} {args : List Bytes} {trace : List (HttpEvent HttpRequest CsvLine)}
  {outcome : Outcome Failure Unit}

theorem act_requests (order : Order) : (Order.act runtime config subject schema order).wp
    (Shows requestOf (order.requests config subject schema)) := by
  refine wp_mono (act_goes order) fun trace outcome hgoes => ?_
  cases hgoes <;> simp [Shows, Order.requests, List.filterMap_cons]

theorem act_rows (order : Order) : (Order.act runtime config subject schema order).wp
    (Shows rowKey order.rows) := by
  refine wp_mono (act_goes order) fun trace outcome hgoes => ?_
  cases hgoes <;>
    simp [Shows, Order.rows, rowKey, List.filterMap_cons, CsvLine.key, steadyLine, networkLine,
      controlRow]

theorem iterations_ne_zero (hconfig : parseArgs args = .ok config) : config.iterations ≠ 0 := by
  obtain ⟨given, -, -, hfields⟩ := parseArgs_eq_ok hconfig
  have hminimum := (hfields _ List.mem_cons_self).2
  intro hzero
  change 1000000 ≤ config.iterations.toNat at hminimum
  rw [hzero] at hminimum
  exact absurd hminimum (by decide)

theorem run_follows (hconfig : parseArgs args = .ok config)
    (hrepetitions : config.repetitions ≠ BitVec.allOnes 32)
    (hn : config.networkRepetitions ≠ BitVec.allOnes 32)
    (play : Plays (main runtime capacity config subject schema fuel) trace outcome) :
    Follows (Order.act runtime config subject schema) (agenda config subject) trace outcome :=
  wp_iff_plays.mp (main_follows runtime capacity config subject schema fuel
    (iterations_ne_zero hconfig) hrepetitions hn) trace outcome play

/-- Whatever the network answers, the requests sent and the lines written are the planned ones
from the first on, and all of them once the program has come through. -/
theorem session_goes_as_planned (hconfig : parseArgs args = .ok config)
    (hrepetitions : config.repetitions ≠ BitVec.allOnes 32)
    (hn : config.networkRepetitions ≠ BitVec.allOnes 32)
    (play : Plays (main runtime capacity config subject schema fuel) trace outcome) :
    requests trace <+: plannedRequests config subject schema ∧
      (lines trace).map CsvLine.key <+: plannedRows config ∧
      (outcome = .returned () → requests trace = plannedRequests config subject schema ∧
        (lines trace).map CsvLine.key = plannedRows config) := by
  have hfollows := run_follows hconfig hrepetitions hn play
  have hrequests := hfollows.shows fun order _ => act_requests order
  have hrows := hfollows.shows fun order _ => act_rows order
  rw [agenda_requests] at hrequests
  rw [agenda_rows] at hrows
  have hkeys : (lines trace).map CsvLine.key = trace.filterMap rowKey :=
    List.map_filterMap
  rw [hkeys]
  refine ⟨hrequests.isPrefix, hrows.isPrefix, fun hreturned => ?_⟩
  subst hreturned
  exact ⟨hrequests, hrows⟩

theorem defaults_parsed : parseArgs [] = .ok {} := rfl

/-- What a network and a clock answer that behave the same all the time. -/
abbrev Replies := (op : Op HttpRequest CsvLine) → Answer op

/-- Each request is answered with an ID. -/
def answersAll : Replies
  | .handle => true
  | .request _ => .ok ⟨200, ascii "\"id\":7"⟩
  | .clock => default
  | .write _ => ()

/-- Registrations are answered with an ID, and lookups find nothing. -/
def answersPosts : Replies
  | .handle => true
  | .request request =>
    if request.method = .post then .ok ⟨200, ascii "\"id\":7"⟩ else .ok ⟨404, []⟩
  | .clock => default
  | .write _ => ()

theorem hasId_seven : HasId (.ok ⟨200, ascii "\"id\":7"⟩) := by
  rw [hasId_iff]
  exact ⟨7, by decide +kernel⟩

theorem not_hasId_notFound : ¬ HasId (.ok ⟨404, []⟩) := by
  rw [hasId_iff]
  rintro ⟨id, hid⟩
  cases hid

variable (runtime : Runtime) (capacity : ℕ → ℕ) (subject schema : Bytes)

/-- The default benchmark against such answers. -/
theorem exists_default_play (replies : Replies) : ∃ fuel trace outcome,
    Plays (main runtime capacity {} subject schema fuel) trace outcome ∧ outcome ≠ .running ∧
      ∀ event ∈ trace, event.2 = replies event.1 :=
  ⟨11, (main_whole runtime capacity subject schema (by decide) (by decide) (by decide)
    (by decide)).plays replies⟩

/-- If every request is answered with an ID, the program comes through. -/
theorem exists_complete_play : ∃ fuel trace,
    Plays (main runtime capacity {} subject schema fuel) trace (.returned ()) := by
  obtain ⟨fuel, trace, outcome, play, hended, hreplies⟩ :=
    exists_default_play runtime capacity subject schema answersAll
  cases outcome with
  | running => exact absurd rfl hended
  | returned => exact ⟨fuel, trace, play⟩
  | failed failure =>
    obtain ⟨done, order, rest, first, last, -, rfl, -, hlast⟩ :=
      (run_follows defaults_parsed (by decide) (by decide) play).of_failed
    have hreply : ∀ request reply, replied request reply ∈ last → HasId reply := by
      intro request reply h
      rw [show reply = _ from hreplies _ (List.mem_append_right first h)]
      exact hasId_seven
    obtain ⟨path, repetition, reply, -, hreply', hmem⟩ := (refused_of_failed hlast).1.network
      (fun h => Bool.false_ne_true (hreplies _ (List.mem_append_right first h)))
      (hreply _)
    exact absurd (hreply _ _ hmem) hreply'

/-- The complete run of the default benchmark. -/
theorem session_goes_as_planned_complete : ∃ fuel trace,
    Plays (main Runtime.standard id {} (ascii "s") (ascii "syntax") fuel) trace (.returned ()) ∧
      requests trace = plannedRequests {} (ascii "s") (ascii "syntax") ∧
      (lines trace).map CsvLine.key = plannedRows {} := by
  obtain ⟨fuel, trace, play⟩ :=
    exists_complete_play Runtime.standard id (ascii "s") (ascii "syntax")
  exact ⟨fuel, trace, play,
    (session_goes_as_planned defaults_parsed (by decide) (by decide) play).2.2 rfl⟩

end Runs

section Lines

/-- The cases whose replies must be successful; their lines end with an ID and not a status. -/
def mandatoryCases : List Bytes :=
  [ascii "schema_registry_lookup", ascii "schema_registry_registration"]

/-- The line tells how long it took and what came back. -/
def Tells (line : RequestLine) (timing : Timing) (reply : Reply) : Prop :=
  line.elapsed = timing.elapsed ∧ line.rate = timing.rate ∧
    match reply with
    | .ok result => line.bytes = result.body.length ∧
        (if line.testCase ∈ mandatoryCases then
          ∃ id, responseId result = .ok id ∧ line.checksum = decimalDigits id.toNat
        else line.checksum = decimalText result.status.toInt)
    | .error _ => line.testCase ∉ mandatoryCases ∧ line.bytes = 0 ∧ line.checksum = decimalText 0

/-- What stands before a line when it is written: the clock is read last, and before that,
for a line about requests, the reply that the line is about. -/
def RightLine (runtime : Runtime) (config : Config)
    (before : List (HttpEvent HttpRequest CsvLine)) :
    HttpEvent HttpRequest CsvLine → Prop
  | ⟨.write (.request line), _⟩ => ∃ earlier request reply timing,
      before = earlier ++ [replied request reply, timed timing] ∧ Tells line timing reply
  | ⟨.write (.steady line), _⟩ => ∃ earlier timing testCase api repetition,
      before = earlier ++ [timed timing] ∧
        line = steadyLine runtime config testCase api repetition timing
  | ⟨.handle, _⟩ | ⟨.request _, _⟩ | ⟨.clock, _⟩ => True

variable {runtime : Runtime} {capacity : ℕ → ℕ} {config : Config} {subject schema : Bytes}
  {fuel : ℕ} {args : List Bytes} {trace before earlier : List (HttpEvent HttpRequest CsvLine)}
  {event : HttpEvent HttpRequest CsvLine} {outcome : Outcome Failure Unit}

theorem RightLine.append (h : RightLine runtime config before event) :
    RightLine runtime config (earlier ++ before) event := by
  obtain ⟨op, answer⟩ := event
  cases op with
  | handle | request | clock => trivial
  | write line =>
    cases line with
    | steady line =>
      obtain ⟨first, timing, testCase, api, repetition, rfl, hline⟩ := h
      exact ⟨earlier ++ first, timing, testCase, api, repetition, by simp, hline⟩
    | request line =>
      obtain ⟨first, request, reply, timing, rfl, htells⟩ := h
      exact ⟨earlier ++ first, request, reply, timing, by simp, htells⟩

theorem rightLine_of_lineOf (h : lineOf event = none) : RightLine runtime config before event := by
  obtain ⟨op, answer⟩ := event
  cases op with
  | handle | request | clock => trivial
  | write line => cases h

/-- Without lines there is nothing to show. -/
theorem justified_of_lines (h : lines trace = []) : Justified (RightLine runtime config) trace := by
  intro before event after heq
  have hnone := List.filterMap_eq_nil_iff.mp h event (by rw [heq]; simp)
  exact rightLine_of_lineOf hnone

theorem networkPath_mandatory (path : NetworkPath) : path.testCase ∈ mandatoryCases := by
  unfold NetworkPath.testCase mandatoryCases
  split <;> simp

theorem controlRow_tells {api testCase : Bytes} {repetition : ℕ} {timing : Timing}
    {reply : Reply} (hcase : testCase ∉ mandatoryCases) :
    Tells (controlRow api testCase repetition timing.elapsed timing.rate reply.toOption) timing
      reply := by
  refine ⟨rfl, rfl, ?_⟩
  cases reply with
  | error what => exact ⟨hcase, rfl, rfl⟩
  | ok result =>
    refine ⟨rfl, ?_⟩
    change if testCase ∈ mandatoryCases then _ else _
    rw [if_neg hcase]
    rfl

/-- The exceptional paths have cases of their own. -/
theorem exceptional_cases {path : RequestPath} {repetition : ℕ}
    (h : Order.exceptional path repetition ∈ agenda config subject) :
    path.expectedCase ∉ mandatoryCases := by
  have hpath : path = cacheMiss config subject ∨ path = unavailable config := by
    simp [agenda, framingAgenda, networkAgenda, exceptionalAgenda, repeated] at h
    tauto
  have hmiss : ascii "schema_registry_cache_miss" ∉ mandatoryCases := by decide
  have hunavailable : ascii "schema_registry_unavailable" ∉ mandatoryCases := by decide
  rcases hpath with rfl | rfl
  · exact hmiss
  · exact hunavailable

theorem act_justified {order : Order} (horder : order ∈ agenda config subject) :
    (Order.act runtime config subject schema order).wp fun trace _ =>
      Justified (RightLine runtime config) trace := by
  refine wp_mono (act_goes order) fun trace outcome hgoes => ?_
  cases hgoes with
  | steadyWritten testCase api repetition timing =>
    refine justified_snoc [timed timing] (justified_of_lines rfl) ?_
    exact ⟨[], timing, testCase, api, repetition, rfl, rfl⟩
  | networkWritten path repetition result timing id hid =>
    refine justified_snoc [replied _ (.ok result), timed timing]
      (justified_of_lines rfl) ⟨[], _, .ok result, timing, rfl, rfl, rfl, rfl, ?_⟩
    change if path.testCase ∈ mandatoryCases then _ else _
    rw [if_pos (networkPath_mandatory path)]
    exact ⟨id, hid, rfl⟩
  | exceptionalWritten path repetition reply timing =>
    refine justified_snoc [handled true, replied path.request reply, timed timing]
      (justified_of_lines rfl) ⟨[handled true], path.request, reply, timing, rfl, ?_⟩
    exact controlRow_tells (exceptional_cases horder)
  | retryWritten repetition first reply timing =>
    refine justified_snoc [handled true, handled true,
      replied (retryFirst config) first, replied (retrySecond config subject) reply, timed timing]
      (justified_of_lines rfl) ⟨[handled true, handled true, replied (retryFirst config) first],
        retrySecond config subject, reply, timing, rfl, ?_⟩
    exact controlRow_tells (by decide)
  | _ => exact justified_of_lines rfl

/-- Whatever the network answers, each line about a request tells what came back for the request
made last before it, and each line of a framing measurement counts whole frames. -/
theorem session_lines_tell (hconfig : parseArgs args = .ok config)
    (hrepetitions : config.repetitions ≠ BitVec.allOnes 32)
    (hn : config.networkRepetitions ≠ BitVec.allOnes 32)
    (play : Plays (main runtime capacity config subject schema fuel) trace outcome) :
    ∀ before event after, trace = before ++ event :: after →
      RightLine runtime config before event :=
  (run_follows hconfig hrepetitions hn play).justified (fun _ _ _ => RightLine.append)
    fun _ => act_justified

theorem session_lines_tell_complete : ∃ fuel trace,
    Plays (main Runtime.standard id {} (ascii "s") (ascii "syntax") fuel) trace (.returned ()) ∧
      lines trace ≠ [] ∧ Justified (RightLine Runtime.standard {}) trace := by
  obtain ⟨fuel, trace, play⟩ :=
    exists_complete_play Runtime.standard id (ascii "s") (ascii "syntax")
  have hrows := (run_follows defaults_parsed (by decide) (by decide) play).shows
    fun order _ => act_rows order
  rw [agenda_rows] at hrows
  refine ⟨fuel, trace, play, fun hnone => ?_,
    session_lines_tell defaults_parsed (by decide) (by decide) play⟩
  have hkeys : (lines trace).map CsvLine.key = plannedRows {} :=
    List.map_filterMap.trans hrows
  rw [hnone] at hkeys
  cases hkeys

end Lines

section Refusals

variable {runtime : Runtime} {capacity : ℕ → ℕ} {config : Config} {subject schema : Bytes}
  {fuel : ℕ} {args : List Bytes} {trace last : List (HttpEvent HttpRequest CsvLine)}
  {failure : Failure}

/-- If the program stops early, then by an exception and in an order whose reply had to be
successful and was not, or that had no handle; all orders before it have been carried out. -/
theorem session_stops_when_refused (hconfig : parseArgs args = .ok config)
    (hrepetitions : config.repetitions ≠ BitVec.allOnes 32)
    (hn : config.networkRepetitions ≠ BitVec.allOnes 32)
    (play : Plays (main runtime capacity config subject schema fuel) trace (.failed failure)) :
    ∃ done order rest first last, agenda config subject = done ++ order :: rest ∧
      trace = first ++ last ∧ requests first = done.flatMap (Order.requests config subject schema) ∧
      (lines trace).map CsvLine.key = done.flatMap Order.rows ∧
      Refused config subject schema last order ∧ ∃ error, failure = .exception error := by
  obtain ⟨done, order, rest, first, last, hagenda, rfl, hdone, hlast⟩ :=
    (run_follows hconfig hrepetitions hn play).of_failed
  obtain ⟨hrefused, herror⟩ := refused_of_failed hlast
  have hrequests : requests first = done.flatMap (Order.requests config subject schema) :=
    hdone.shows fun order _ => act_requests order
  have hrows : first.filterMap rowKey = done.flatMap Order.rows :=
    hdone.shows fun order _ => act_rows order
  have hnone : lines last = [] := by
    cases order with
    | acquire | exceptional =>
      rw [show last = [handled false] from hrefused]
      rfl
    | bootstrap =>
      obtain ⟨reply, -, rfl⟩ := hrefused
      rfl
    | steady => exact hrefused.elim
    | network path repetition =>
      obtain ⟨reply, rest, -, hlines, rfl⟩ := hrefused
      exact hlines
    | retry =>
      obtain ⟨failed, successful, -, rfl⟩ := hrefused
      rfl
  refine ⟨done, order, rest, first, last, hagenda, rfl, hrequests, ?_, hrefused, herror⟩
  have hlines : lines (first ++ last) = lines first ++ lines last := List.filterMap_append
  rw [hlines, hnone, List.append_nil, ← hrows]
  exact List.map_filterMap

theorem answersPosts_get {request : HttpRequest} (hget : request.method = .get) :
    answersPosts (.request request) = .ok ⟨404, []⟩ := by
  unfold answersPosts
  exact if_neg (by rw [hget]; nofun)

/-- The orders before the first lookup. -/
def framingOrders (config : Config) : List Order :=
  [.acquire, .bootstrap] ++ [Case.int64, .decimal, .wide].flatMap (framingAgenda config) ++
    [.acquire]

theorem framingOrders_network {order : Order} {path : NetworkPath} {repetition : ℕ}
    (h : order ∈ framingOrders config) : order ≠ .network path repetition := by
  rintro rfl
  simp [framingOrders, framingAgenda, repeated] at h

theorem framingOrders_rows : (framingOrders config).flatMap Order.rows =
    framingNames.flatMap (numberedRows config.repetitions) := by
  simp only [framingOrders, framingAgenda, List.flatMap_append, List.flatMap_cons,
    List.flatMap_nil, repeated_flatMap, Order.rows]
  simp [framingNames, numberedRows, ← List.map_eq_flatMap]

theorem framingOrders_agenda (config : Config) (subject : Bytes) :
    framingOrders config <+: agenda config subject := by
  refine ⟨repeated config.networkRepetitions (.network keepaliveLookup) ++
    (networkAgenda config coldLookup ++
      (networkAgenda config registrations ++ exceptionalAgenda config subject)), ?_⟩
  simp [framingOrders, agenda, networkAgenda, keepaliveLookup, List.append_assoc]

/-- With lookups that find nothing the program stops at the first of them, after all lines
of the framing measurements. -/
theorem session_stops_when_refused_notFound : ∃ fuel trace failure done order rest,
    Plays (main Runtime.standard id {} (ascii "s") (ascii "syntax") fuel) trace
      (.failed failure) ∧ agenda {} (ascii "s") = done ++ order :: rest ∧
      (lines trace).map CsvLine.key = done.flatMap Order.rows ∧
      framingNames.flatMap (numberedRows 10) <+: (lines trace).map CsvLine.key := by
  obtain ⟨fuel, trace, outcome, play, hended, hreplies⟩ :=
    exists_default_play Runtime.standard id (ascii "s") (ascii "syntax") answersPosts
  cases outcome with
  | running => exact absurd rfl hended
  | returned =>
    -- the first lookup would have had to find something
    have hlookup : Order.network keepaliveLookup 1 ∈ agenda {} (ascii "s") := by
      simp [agenda, networkAgenda, repeated, keepaliveLookup]
    obtain ⟨piece, hpiece, hplay⟩ :=
      (run_follows defaults_parsed (by decide) (by decide) play).of_returned hlookup
    have hgoes := wp_iff_plays.mp (act_goes _) _ _ hplay
    cases hgoes with
    | networkWritten _ _ result timing id hid =>
      have hreply := hreplies _ (hpiece.subset List.mem_cons_self)
      obtain rfl := Except.ok.inj (hreply.trans (answersPosts_get rfl))
      exact absurd (hasId_iff.mpr ⟨id, hid⟩) not_hasId_notFound
  | failed failure =>
    obtain ⟨done, order, rest, first, last, hagenda, rfl, -, hkeys, hrefused, -⟩ :=
      session_stops_when_refused defaults_parsed (by decide) (by decide) play
    obtain ⟨path, repetition, -, rfl, -⟩ := hrefused.network
      (fun h => Bool.false_ne_true (hreplies _ (List.mem_append_right first h)))
      fun reply h => by
        rw [show reply = _ from hreplies _ (List.mem_append_right first h)]
        exact hasId_seven
    have hframing : framingOrders {} <+: done := by
      obtain ⟨tail, htail⟩ := framingOrders_agenda {} (ascii "s")
      rw [hagenda] at htail
      rcases List.append_eq_append_iff.mp htail with ⟨more, hmore, -⟩ | ⟨more, hmore, hrest⟩
      · exact ⟨more, hmore.symm⟩
      · cases more with
        | nil => rw [hmore, List.append_nil]
        | cons first more =>
          have hfirst : first ∈ framingOrders {} := by
            rw [hmore]
            exact List.mem_append_right done List.mem_cons_self
          exact absurd (List.cons.inj hrest).1.symm (framingOrders_network hfirst)
    refine ⟨fuel, _, failure, done, _, rest, play, hagenda, hkeys, ?_⟩
    have hrows : framingNames.flatMap (numberedRows 10) = (framingOrders {}).flatMap Order.rows :=
      (@framingOrders_rows {}).symm
    obtain ⟨more, rfl⟩ := hframing
    rw [hkeys, hrows, List.flatMap_append]
    exact List.prefix_append _ _

end Refusals

end ProtobufKafkaBench.RegistrySession

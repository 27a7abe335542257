import ProtobufKafkaBench.HttpSessions
import ProtobufKafkaBench.RegistryRequests

/-!
The schema evolution benchmark. Each repetition registers the first schema under a subject of
its own, the second schema under the same subject, and then lists the versions. A reply is
written down whatever its status is, and a status that tells of a failure is reported besides;
so only a missing handle or a request without a reply ends the program early.
-/
namespace ProtobufKafkaBench.SchemaEvolution

open ByteBuffers CommandLine CountedLoops Dialogues Exceptions HttpSessions MarketEvents
open SchemaRegistry (HttpResult Method versionsUrl contentType numberedSubject)

section Arguments

structure Config where
  repetitions : BitVec 32 := 10
  registryUrl : Bytes := ascii "http://schema-registry:8081"
  csvPath : Bytes := ascii "/work/results/schema_evolution_raw.csv"
  metadataPath : Bytes := ascii "/work/results/schema_evolution_metadata.txt"

/-- The comparisons of the argument with the flags, in the order they are made. -/
def flagTable : List (Bytes × Flag Config) :=
  [(ascii "--repetitions", .takesValue fun config value => do
      return { config with repetitions := (← stoul value).setWidth 32 }),
    (ascii "--registry-url", .takesValue fun config value =>
      .ok { config with registryUrl := value }),
    (ascii "--csv", .takesValue fun config value => .ok { config with csvPath := value }),
    (ascii "--metadata", .takesValue fun config value =>
      .ok { config with metadataPath := value })]

def flags (arg : Bytes) : Option (Flag Config) := flagTable.lookup arg

def checkConfig (config : Config) : Except CliError Config :=
  if config.repetitions.toNat < 10 then .error (.runtimeError (ascii "repetitions must be >= 10"))
  else .ok config

def parseArgs (args : List Bytes) : Except CliError Config := do
  checkConfig (← parseLoop flags {} args)

theorem repetitions_of_parseArgs {args : List Bytes} {config : Config}
    (h : parseArgs args = .ok config) : 10 ≤ config.repetitions.toNat := by
  obtain ⟨parsed, -, hchecked⟩ := bind_eq_ok.mp h
  obtain ⟨henough, heq⟩ := guard_eq_ok.mp hchecked
  obtain rfl := Except.ok.inj heq
  omega

end Arguments

section Program

/-- The two schema files. -/
structure Schemas where
  v1 : Bytes
  v2 : Bytes

/-- What `request` is called with. -/
structure Request where
  url : Bytes
  method : Method
  body : Bytes
  header : Bytes
  deriving DecidableEq

structure Row where
  phase : Bytes
  repetition : ℕ
  status : Int64
  bytes : ℕ
  elapsed : Bytes

/-- A line of the table, or a line on the error stream. -/
inductive Output
  | row (row : Row)
  | complaint (phase : Bytes) (repetition : ℕ) (result : HttpResult)

abbrev Program (α : Type) := Session Request Output α

/-- The status that `write_row` reports. -/
def Unsuccessful (result : HttpResult) : Prop := 300 ≤ result.status ∨ result.status = 0

instance (result : HttpResult) : Decidable (Unsuccessful result) :=
  inferInstanceAs (Decidable (_ ∨ _))

def rowOf (phase : Bytes) (repetition : ℕ) (timing : Timing) (result : HttpResult) : Row where
  phase
  repetition
  status := result.status
  bytes := result.body.length
  elapsed := timing.elapsed

def writeRow (phase : Bytes) (repetition : ℕ) (timing : Timing) (result : HttpResult) :
    Program Unit := do
  writeLine (.row (rowOf phase repetition timing result))
  if Unsuccessful result then writeLine (.complaint phase repetition result) else return ()

inductive Phase
  | registerV1
  | registerV2
  | lookupVersions
  deriving DecidableEq

def Phase.name : Phase → Bytes
  | .registerV1 => ascii "register_v1"
  | .registerV2 => ascii "register_v2"
  | .lookupVersions => ascii "lookup_versions"

def subjectOf (repetition : ℕ) : Bytes :=
  ascii "schema_evolution_benchmark_" ++ decimalDigits repetition

variable (config : Config) (schemas : Schemas)

def registration (schema : Bytes) (repetition : ℕ) : Request where
  url := versionsUrl config.registryUrl (subjectOf repetition)
  method := .post
  body := RegistrationBodies.SchemaEvolution.registrationBody schema
  header := contentType

def Phase.request (repetition : ℕ) : Phase → Request
  | .registerV1 => registration config schemas.v1 repetition
  | .registerV2 => registration config schemas.v2 repetition
  | .lookupVersions => {
      url := versionsUrl config.registryUrl (subjectOf repetition)
      method := .get
      body := []
      header := contentType }

/-- One timed request and its line. -/
def phaseRound (repetition : ℕ) (phase : Phase) : Program Unit := do
  let result ← send (phase.request config schemas repetition)
  let timing ← Dialogue.ask .clock
  writeRow phase.name repetition timing result

def repetitionRound (repetition : ℕ) : Program Unit := do
  acquire
  phaseRound config schemas repetition .registerV1
  phaseRound config schemas repetition .registerV2
  phaseRound config schemas repetition .lookupVersions

/-- `main` after its files have been read and opened, cut off after `fuel` repetitions. -/
def main (fuel : ℕ) : Program Unit :=
  Dialogue.repeatUpTo (fun repetition _ => repetitionRound config schemas repetition.toNat)
    config.repetitions fuel 1 ()

def metadataText : Bytes :=
  ascii "repetitions=" ++ decimalDigits config.repetitions.toNat ++
    ascii "\nv1_schema=proto/google_speed/market.proto\nv2_schema=schemas/schema_evolution/market_v2.proto\n"

end Program

section Orders

variable (config : Config) (schemas : Schemas)

/-- A handle for each repetition, and then its phases. -/
inductive Order
  | acquire (repetition : ℕ)
  | perform (phase : Phase) (repetition : ℕ)

def Order.act : Order → Program Unit
  | .acquire _ => HttpSessions.acquire
  | .perform phase repetition => phaseRound config schemas repetition phase

def phases : List Phase := [.registerV1, .registerV2, .lookupVersions]

def repetitionAgenda (repetition : ℕ) : List Order :=
  .acquire repetition :: phases.map fun phase => .perform phase repetition

def agenda : List Order := (List.range' 1 config.repetitions.toNat).flatMap repetitionAgenda

/-- What comes back for a request, and the time that it takes. -/
abbrev Reply := HttpResult × Timing

/-- The lines about a reply. -/
def outputs (phase : Phase) (repetition : ℕ) (reply : Reply) : List Output :=
  .row (rowOf phase.name repetition reply.2 reply.1) ::
    if Unsuccessful reply.1 then [.complaint phase.name repetition reply.1] else []

/-- The events of an order that is carried out to its end. -/
def Order.piece : Order → Reply → List (HttpEvent Request Output)
  | .acquire _, _ => [handled true]
  | .perform phase repetition, reply =>
    replied (phase.request config schemas repetition) (.ok reply.1) :: timed reply.2 ::
      (outputs phase repetition reply).map wrote

/-- The events of a run that comes to its end, given what comes back. -/
def wholeRun (reply : Order → Reply) : List (HttpEvent Request Output) :=
  (agenda config).flatMap fun order => order.piece config schemas (reply order)

/-- The events after which the program ends with an error. -/
def Fatal : HttpEvent Request Output → Failure → Prop
  | ⟨.handle, usable⟩, failure => usable = false ∧
      failure = .exception (.runtimeError (ascii "curl_easy_init failed"))
  | ⟨.request _, reply⟩, failure => ∃ what, reply = .error what ∧
      failure = .exception (.runtimeError what)
  | ⟨.clock, _⟩, _ | ⟨.write _, _⟩, _ => False

end Orders

section Runs

variable {config : Config} {schemas : Schemas}

theorem repetitionRound_follows (repetition : ℕ) :
    (repetitionRound config schemas repetition).wp
      (Follows (Order.act config schemas) (repetitionAgenda repetition)) := by
  have hact := wp_act (Order.act config schemas)
  refine wp_bind_follows (hact (.acquire repetition)) fun _ => ?_
  refine wp_bind_follows (hact (.perform .registerV1 repetition)) fun _ => ?_
  refine wp_bind_follows (hact (.perform .registerV2 repetition)) fun _ => ?_
  exact hact (.perform .lookupVersions repetition)

theorem main_follows (hrepetitions : config.repetitions ≠ BitVec.allOnes 32) (fuel : ℕ) :
    (main config schemas fuel).wp (Follows (Order.act config schemas) (agenda config)) :=
  wp_repeatUpTo_follows repetitionAgenda hrepetitions
    (fun i _ _ => repetitionRound_follows i.toNat) fuel rfl

theorem mem_repetitionAgenda {order : Order} {repetition : ℕ} :
    order ∈ repetitionAgenda repetition ↔ order = .acquire repetition ∨
      ∃ phase, order = .perform phase repetition := by
  simp only [repetitionAgenda, phases, List.mem_cons, List.map_cons, List.map_nil,
    List.not_mem_nil, or_false]
  refine or_congr Iff.rfl ⟨fun h => ?_, fun h => ?_⟩
  · rcases h with rfl | rfl | rfl <;> exact ⟨_, rfl⟩
  · obtain ⟨phase, rfl⟩ := h
    cases phase <;> simp

theorem agenda_nodup (config : Config) : (agenda config).Nodup := by
  refine List.nodup_flatMap.mpr ⟨fun repetition _ => ?_, ?_⟩
  · simp [repetitionAgenda, phases]
  · refine List.Pairwise.imp (fun {first second} hne order hfirst hsecond => hne ?_)
      List.nodup_range'
    rw [mem_repetitionAgenda] at hfirst hsecond
    rcases hfirst with rfl | ⟨phase, rfl⟩
    · rcases hsecond with h | ⟨other, h⟩
      · exact Order.acquire.inj h
      · cases h
    · rcases hsecond with h | ⟨other, h⟩
      · cases h
      · exact (Order.perform.inj h).2

theorem phaseRound_fits (phase : Phase) (repetition : ℕ) :
    (phaseRound config schemas repetition phase).wp
      (Fits ((Order.perform phase repetition).piece config schemas) Fatal) := by
  unfold phaseRound
  rw [wp_send]
  refine ⟨⟨default, List.nil_prefix⟩, fun result => ?_, fun what => ?_⟩
  · rw [wp_ask]
    refine ⟨⟨(result, default), ?_⟩, fun timing => ?_⟩
    · simp [Order.piece]
    · unfold writeRow
      by_cases hbad : Unsuccessful result
      · rw [if_pos hbad]
        refine ⟨⟨(result, timing), ?_⟩, fun _ => ⟨⟨(result, timing), ?_⟩, fun _ =>
          ⟨(result, timing), ?_⟩⟩⟩
        all_goals simp [Order.piece, outputs, hbad]
      · rw [if_neg hbad]
        refine ⟨⟨(result, timing), ?_⟩, fun _ => ⟨(result, timing), ?_⟩⟩
        all_goals simp [Order.piece, outputs, hbad]
  · exact ⟨default, [], _, rfl, List.nil_prefix, what, rfl, rfl⟩

theorem act_fits (order : Order) :
    (order.act config schemas).wp (Fits (order.piece config schemas) Fatal) := by
  cases order with
  | acquire =>
    refine wp_acquire.mpr ⟨⟨default, List.nil_prefix⟩, ⟨default, rfl⟩, ?_⟩
    exact ⟨default, [], _, rfl, List.nil_prefix, rfl, rfl⟩
  | perform phase repetition => exact phaseRound_fits phase repetition

/-- Any reply lets a phase go on. -/
theorem plays_phaseRound (phase : Phase) (repetition : ℕ) (reply : Reply) :
    Plays (phaseRound config schemas repetition phase)
      ((Order.perform phase repetition).piece config schemas reply) (.returned ()) := by
  refine .perform (.perform (.perform ?_))
  by_cases hbad : Unsuccessful reply.1
  · simp only [hbad, if_true]
    exact .perform (.done ())
  · simp only [hbad, if_false]
    exact .done ()

theorem plays_repetitionRound (repetition : ℕ) (reply : Order → Reply) :
    Plays (repetitionRound config schemas repetition)
      ((repetitionAgenda repetition).flatMap fun order =>
        order.piece config schemas (reply order)) (.returned ()) := by
  have hphase : ∀ phase, Plays (phaseRound config schemas repetition phase)
      ((Order.perform phase repetition).piece config schemas (reply (.perform phase repetition)))
      (.returned ()) := fun phase => plays_phaseRound phase repetition _
  have hwhole : (repetitionAgenda repetition).flatMap
      (fun order => order.piece config schemas (reply order)) = handled true ::
        ((Order.perform .registerV1 repetition).piece config schemas
            (reply (.perform .registerV1 repetition)) ++
          ((Order.perform .registerV2 repetition).piece config schemas
              (reply (.perform .registerV2 repetition)) ++
            (Order.perform .lookupVersions repetition).piece config schemas
              (reply (.perform .lookupVersions repetition)))) := by
    simp only [repetitionAgenda, phases, List.flatMap_cons, List.map_cons, List.map_nil,
      List.flatMap_nil, List.append_nil]
    rfl
  have hacquire : Plays (acquire : Program Unit) [handled true] (.returned ()) :=
    .perform (.done ())
  rw [hwhole]
  change Plays (acquire.bind fun _ => (phaseRound config schemas repetition .registerV1).bind
    fun _ => (phaseRound config schemas repetition .registerV2).bind
      fun _ => phaseRound config schemas repetition .lookupVersions) ([handled true] ++ _) _
  exact hacquire.bind ((hphase .registerV1).bind
    ((hphase .registerV2).bind (hphase .lookupVersions)))

theorem play_fits (hrepetitions : config.repetitions ≠ BitVec.allOnes 32) {fuel : ℕ}
    {trace : List (HttpEvent Request Output)} {outcome : Outcome Failure Unit}
    (hplay : Plays (main config schemas fuel) trace outcome) :
    Fits (wholeRun config schemas) Fatal trace outcome := by
  have hfollows := wp_iff_plays.mp (main_follows hrepetitions fuel) trace outcome hplay
  exact hfollows.fits (agenda_nodup config) fun order _ => act_fits order

theorem plays_wholeRun (hrepetitions : config.repetitions ≠ BitVec.allOnes 32)
    (reply : Order → Reply) : Plays (main config schemas (config.repetitions.toNat + 1))
      (wholeRun config schemas reply) (.returned ()) := by
  obtain ⟨⟨⟩, hplay⟩ := plays_repeatUpTo
    (fun repetition _ => repetitionRound config schemas repetition.toNat)
    (fun repetition => (repetitionAgenda repetition).flatMap fun order =>
      order.piece config schemas (reply order)) hrepetitions
    (fun i _ => ⟨(), plays_repetitionRound i.toNat reply⟩) (Nat.lt_succ_self _)
    (show (1 : BitVec 32).toNat = 0 + 1 from rfl) (Nat.zero_le _) ()
  rw [wholeRun, agenda, List.flatMap_assoc]
  exact hplay

/-- A run is determined by what comes back, and any replies make a run: it stops early for want of
a handle or of a reply, and never because of what a reply says. -/
theorem evolution_runs (hrepetitions : config.repetitions ≠ BitVec.allOnes 32) :
    (∀ fuel trace outcome, Plays (main config schemas fuel) trace outcome →
      Fits (wholeRun config schemas) Fatal trace outcome) ∧
      ∀ reply, ∃ fuel, Plays (main config schemas fuel) (wholeRun config schemas reply)
        (.returned ()) :=
  ⟨fun _ _ _ => play_fits hrepetitions, fun reply => ⟨_, plays_wholeRun hrepetitions reply⟩⟩

theorem evolution_runs_default : ∃ fuel, Plays (main {} ⟨ascii "v1", ascii "v2"⟩ fuel)
    (wholeRun {} ⟨ascii "v1", ascii "v2"⟩ fun _ => (⟨409, []⟩, default)) (.returned ()) :=
  (evolution_runs (by decide)).2 _

end Runs

end ProtobufKafkaBench.SchemaEvolution

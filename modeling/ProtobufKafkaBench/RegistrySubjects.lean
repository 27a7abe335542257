import ProtobufKafkaBench.RegistrationSchedules
import ProtobufKafkaBench.RegistryRuns

/-!
The subjects that the schema registry benchmark registers, over all of its phases. What a
registration costs is measured only where the subject is new, so none is registered twice:
not by the first registration and a later one, nor by one of the sequential and one of the
concurrent registrations.
-/
namespace ProtobufKafkaBench.RegistrySession

open ByteBuffers ConcurrentRegistration Dialogues HttpSessions MarketEvents RegistryArguments
open SchemaRegistry Transitions WireFormat

section Subjects

variable {config : Config} {subject schema : Bytes}

theorem numberedSubject_injective (subject suffix : Bytes) :
    Function.Injective (numberedSubject subject suffix) := by
  intro first second h
  exact CsvTables.decimalDigits_injective (List.append_cancel_left h)

theorem numberedSubject_ne (subject suffix : Bytes) (n : ℕ) :
    numberedSubject subject suffix n ≠ subject := by
  intro h
  have hlength := congrArg List.length h
  have hdigits := List.length_pos_of_ne_nil (decimalDigits_ne_nil n)
  simp only [numberedSubject, List.length_append] at hlength
  omega

/-- A number after an underscore is not taken for a concurrent registration. -/
theorem concurrent_ne_numbered (subject : Bytes) (m n : ℕ) :
    numberedSubject subject (ascii "_concurrent_") m ≠ numberedSubject subject (ascii "_") n := by
  intro h
  unfold numberedSubject at h
  rw [List.append_assoc, List.append_assoc] at h
  have htail := List.append_cancel_left h
  have hconcurrent : ascii "_concurrent_" = ascii "_" ++ 99 :: ascii "oncurrent_" := by decide
  rw [hconcurrent, List.append_assoc] at htail
  have hdigits := List.append_cancel_left htail
  have hmem : (99 : UInt8) ∈ decimalDigits n := by
    rw [← hdigits]
    exact List.mem_cons_self
  have hrange := (decimalDigits_range hmem).2
  exact absurd hrange (by decide)

theorem versionsUrl_injective (registryUrl : Bytes) :
    Function.Injective (versionsUrl registryUrl) := by
  intro first second h
  exact List.append_cancel_left (List.append_cancel_right h)

/-- The subjects of a run that comes through, in the order of their registration. -/
def registeredSubjects (config : Config) (subject : Bytes) : List Bytes :=
  subject :: (List.range' 1 config.networkRepetitions.toNat).map
    (numberedSubject subject (ascii "_"))

/-- The requests that register something. -/
def posted (requests : List HttpRequest) : List HttpRequest :=
  requests.filter fun request => request.method = .post

theorem posted_planned : (posted (plannedRequests config subject schema)).map HttpRequest.url =
    (registeredSubjects config subject).map (versionsUrl config.registryUrl) := by
  have hlookups : ∀ (count : ℕ) (request : HttpRequest), request.method = .get →
      (List.replicate count request).filter (fun request => request.method = .post) = [] := by
    intro count request hget
    refine List.filter_eq_nil_iff.mpr fun other hother => ?_
    rw [List.eq_of_mem_replicate hother, hget]
    exact of_decide_eq_true rfl
  have hretries : ∀ count, (List.replicate count
      [retryFirst config, retrySecond config subject]).flatten.filter
        (fun request => request.method = .post) = [] := by
    intro count
    refine List.filter_eq_nil_iff.mpr fun other hother => ?_
    obtain ⟨pair, hpair, hother⟩ := List.mem_flatten.mp hother
    rw [List.eq_of_mem_replicate hpair] at hother
    rcases List.mem_pair.mp hother with rfl | rfl <;> exact of_decide_eq_true rfl
  have hlatest := hlookups config.networkRepetitions.toNat
    (latestRequest (httpOptions config) config.registryUrl subject 30000) rfl
  have hmiss := hlookups config.networkRepetitions.toNat (cacheMiss config subject).request rfl
  have hunavailable := hlookups config.networkRepetitions.toNat (unavailable config).request rfl
  unfold posted plannedRequests
  simp only [List.filter_append, hlatest, hmiss, hunavailable, hretries, List.nil_append,
    List.append_nil]
  simp [registeredSubjects, registrationRequest, List.filter_map, Function.comp_def]

theorem subjects_nodup (config : Config) (subject schema : Bytes)
    {registered : List (ThreadIndex ⟨config, subject, schema⟩)} (hnodup : registered.Nodup) :
    (registeredSubjects config subject ++ registered.map fun index =>
      numberedSubject subject (ascii "_concurrent_") (repetition index)).Nodup := by
  have hrepetition : Function.Injective fun index : ThreadIndex ⟨config, subject, schema⟩ =>
      numberedSubject subject (ascii "_concurrent_") (repetition index) := by
    intro first second h
    exact Fin.ext (Nat.succ_injective (numberedSubject_injective _ _ h))
  refine List.nodup_append.mpr ⟨?_, hnodup.map hrepetition, ?_⟩
  · refine List.nodup_cons.mpr ⟨fun hmem => ?_, ?_⟩
    · obtain ⟨n, -, hn⟩ := List.mem_map.mp hmem
      exact numberedSubject_ne subject _ n hn
    · exact List.Nodup.map (numberedSubject_injective _ _) List.nodup_range'
  · intro first hfirst second hsecond heq
    obtain ⟨index, -, hindex⟩ := List.mem_map.mp hsecond
    subst hindex
    rcases List.mem_cons.mp hfirst with rfl | hnumbered
    · exact numberedSubject_ne _ _ _ heq.symm
    · obtain ⟨n, -, rfl⟩ := List.mem_map.mp hnumbered
      exact concurrent_ne_numbered subject _ n heq.symm

end Subjects

section Registrations

variable {runtime : Runtime} {capacity : ℕ → ℕ} {config : Config} {subject schema : Bytes}
  {fuel : ℕ} {args : List Bytes} {trace : List (HttpEvent HttpRequest CsvLine)}
  {outcome : Outcome Failure Unit}
  {history : List (State ⟨config, subject, schema⟩ × Label ⟨config, subject, schema⟩)}
  {state : State ⟨config, subject, schema⟩}

/-- No subject is registered twice, whatever comes back and however the concurrent threads are
scheduled: the sequential and the concurrent registrations all go to different addresses. -/
theorem registrations_fresh (hconfig : parseArgs args = .ok config)
    (hrepetitions : config.repetitions ≠ BitVec.allOnes 32)
    (hn : config.networkRepetitions ≠ BitVec.allOnes 32)
    (play : Plays (main runtime capacity config subject schema fuel) trace outcome)
    (run : Run Step (State.initial ⟨config, subject, schema⟩) history state) :
    ((posted (requests trace)).map HttpRequest.url ++
      (requesters (labels history)).map fun index => (request index).url).Nodup := by
  have hplanned := ((run_follows hconfig hrepetitions hn play).shows
    fun order _ => act_requests order).isPrefix
  rw [agenda_requests] at hplanned
  have hsublist : (posted (requests trace)).Sublist
      (posted (plannedRequests config subject schema)) := hplanned.sublist.filter _
  have hurls := hsublist.map HttpRequest.url
  rw [posted_planned] at hurls
  have hnodup := (subjects_nodup config subject schema (gate_run run).nodup).map
    (versionsUrl_injective config.registryUrl)
  rw [List.map_append, List.map_map] at hnodup
  exact hnodup.sublist (hurls.append_right _)

theorem registrations_fresh_complete : ∃ fuel trace,
    ∃ (history : List (State ⟨{}, ascii "s", ascii "syntax"⟩ ×
        Label ⟨{}, ascii "s", ascii "syntax"⟩))
      (state : State ⟨{}, ascii "s", ascii "syntax"⟩),
      Plays (main Runtime.standard id {} (ascii "s") (ascii "syntax") fuel) trace (.returned ()) ∧
        Run Step (State.initial ⟨{}, ascii "s", ascii "syntax"⟩) history state ∧
        state.main = .returned ∧ (posted (requests trace)).length = 11 ∧
        (∀ index, index ∈ requesters (labels history)) ∧
        ((posted (requests trace)).map HttpRequest.url ++
          (requesters (labels history)).map fun index => (request index).url).Nodup := by
  obtain ⟨fuel, trace, play⟩ :=
    exists_complete_play Runtime.standard id (ascii "s") (ascii "syntax")
  obtain ⟨history, state, run, hreturned⟩ :=
    exists_returned ⟨{}, ascii "s", ascii "syntax"⟩ (by decide)
  have hrequests : requests trace = _ := (run_follows defaults_parsed (by decide) (by decide)
    play).shows fun order _ => act_requests order
  rw [agenda_requests] at hrequests
  have hposted := congrArg List.length
    (@posted_planned {} (ascii "s") (ascii "syntax"))
  rw [List.length_map, List.length_map, ← hrequests] at hposted
  refine ⟨fuel, trace, history, state, play, run, hreturned, hposted, fun index => ?_,
    registrations_fresh defaults_parsed (by decide) (by decide) play run⟩
  rw [(gate_run run).requested index, (crew_run run).returned hreturned index]
  rfl

end Registrations

end ProtobufKafkaBench.RegistrySession

import ProtobufKafkaBench.ByteBuffers
import Mathlib.Data.List.Perm.Basic
import Mathlib.Data.List.Range

/-!
Producing one message to Kafka with retries. What librdkafka and the allocator
decide is given attempt by attempt; the model keeps the messages librdkafka has
accepted, those whose delivery report is still missing, and the payloads that
were allocated, freed by the caller or handed over.
-/
namespace ProtobufKafkaBench.KafkaProducer

open ByteBuffers

section Librdkafka

/-- `rd_kafka_resp_err_t`, as far as the program tells its values apart. -/
inductive RespErr
  | noError
  | queueFull
  | other (code : ℤ)
  deriving DecidableEq

/-- The parts of librdkafka that no call decides: error texts, and for the n-th
accepted message the error its delivery report carries. -/
structure Librdkafka where
  err2str : RespErr → Bytes
  report : ℕ → RespErr

def Librdkafka.failed (library : Librdkafka) (message : ℕ) : Bool :=
  library.report message ≠ .noError

/-- Messages accepted so far, numbered in that order. Each is either waiting for
its delivery report or has had it, once. -/
structure Deliveries where
  accepted : List Bytes
  outstanding : List ℕ
  reported : List ℕ
  balanced : (reported ++ outstanding).Perm (List.range accepted.length)

namespace Deliveries

def empty : Deliveries := ⟨[], [], [], List.Perm.refl []⟩

def accept (deliveries : Deliveries) (payload : Bytes) : Deliveries where
  accepted := deliveries.accepted ++ [payload]
  outstanding := deliveries.outstanding ++ [deliveries.accepted.length]
  reported := deliveries.reported
  balanced := by
    rw [List.length_append, List.length_singleton, List.range_succ, ← List.append_assoc]
    exact deliveries.balanced.append_right _

/-- Delivery reports run for the outstanding messages that are ready. -/
def serve (deliveries : Deliveries) (ready : ℕ → Bool) : Deliveries where
  accepted := deliveries.accepted
  outstanding := deliveries.outstanding.filter fun message => !ready message
  reported := deliveries.reported ++ deliveries.outstanding.filter ready
  balanced := by
    rw [List.append_assoc]
    exact ((List.filter_append_perm ready deliveries.outstanding).append_left _).trans
      deliveries.balanced

/-- From a moment with nothing outstanding, what was reported or is outstanding is
exactly what has been accepted since. -/
theorem settled_since (deliveries : Deliveries) {first : ℕ} {earlier since : List ℕ}
    (hreported : deliveries.reported = earlier ++ since)
    (hearlier : earlier.Perm (List.range first)) (hfirst : first ≤ deliveries.accepted.length) :
    (since ++ deliveries.outstanding).Perm
      (List.range' first (deliveries.accepted.length - first)) := by
  have hbalanced := deliveries.balanced
  have hsplit : List.range deliveries.accepted.length =
      List.range first ++ List.range' first (deliveries.accepted.length - first) := by
    have happend := @List.range'_append 0 first (deliveries.accepted.length - first) 1
    rw [Nat.one_mul, Nat.zero_add, Nat.add_sub_cancel' hfirst] at happend
    rw [List.range_eq_range', List.range_eq_range', happend]
  rw [hreported, List.append_assoc, hsplit] at hbalanced
  exact (List.perm_append_left_iff _).mp ((hearlier.symm.append_right _).trans hbalanced)

end Deliveries

end Librdkafka

section Attempts

/-- What the outside decides in one attempt to produce `wire`: the fresh memory
that `malloc` returns or null, what `SerializeToArray` leaves in the array it is
given, the answer of `rd_kafka_produce` (`none` for 0, otherwise the error), and,
if the attempt is repeated, the reports that `rd_kafka_poll` serves and the value
of `rd_kafka_last_error` after it. -/
structure Attempt (wire : Bytes) where
  malloc : Option (ByteBuffer wire.length)
  serializeToArray : ByteBuffer wire.length → Bool × ByteBuffer wire.length
  complete : ∀ array, (serializeToArray array).1 = true →
    (serializeToArray array).2.bytes = wire
  refused : Option RespErr
  ready : ℕ → Bool
  polled : RespErr

/-- The program's state around a call: librdkafka, the thread's last error, the
global error counter, the reused vector, and the ledger of owned payloads. -/
structure World (wire : Bytes) where
  deliveries : Deliveries
  lastError : RespErr
  deliveryErrors : BitVec 64
  reusable : ByteBuffer wire.length
  allocated : List ℕ
  freed : List ℕ
  handed : List ℕ

inductive ProduceError
  | badAlloc
  | runtimeError (text : Bytes)

inductive CallResult
  | returned (value : Bool)
  | threw (error : ProduceError)
  | retrying

variable {wire : Bytes}

/-- `delivery_callback`. -/
def deliveryCallback (error : RespErr) (deliveryErrors : BitVec 64) : BitVec 64 :=
  if error ≠ .noError then deliveryErrors + 1 else deliveryErrors

def kafkaError (library : Librdkafka) (operation : Bytes) (error : RespErr) : Bytes :=
  operation ++ ascii ": " ++ library.err2str error

namespace World

/-- A new producer; the reused vector holds whatever the warm-up left in it. -/
def initial (reusable : ByteBuffer wire.length) : World wire :=
  ⟨Deliveries.empty, .noError, 0, reusable, [], [], []⟩

/-- Delivery reports run inside `rd_kafka_poll` and `rd_kafka_flush` only. -/
def serve (world : World wire) (library : Librdkafka) (ready : ℕ → Bool) : World wire :=
  { world with
    deliveries := world.deliveries.serve ready
    deliveryErrors := (world.deliveries.outstanding.filter ready).foldl
      (fun errors message => deliveryCallback (library.report message) errors)
      world.deliveryErrors }

def free (world : World wire) (payload : ℕ) : World wire :=
  { world with freed := world.freed ++ [payload] }

end World

/-- `rd_kafka_produce`: accepted and 0, or refused with the error it sets. -/
def rdKafkaProduce (refused : Option RespErr) (payload : Bytes) (world : World wire) :
    Bool × World wire :=
  match refused with
  | none =>
    (true, { world with deliveries := world.deliveries.accept payload, lastError := .noError })
  | some error => (false, { world with lastError := error })

/-- `rd_kafka_poll` between two attempts. -/
def rdKafkaPoll (library : Librdkafka) (attempt : Attempt wire) (world : World wire) :
    World wire :=
  { world.serve library attempt.ready with lastError := attempt.polled }

/-- The copying attempt: serialize into the reused vector, then `produce_copy`. -/
def produceCopy (attempt : Attempt wire) (world : World wire) : Bool × World wire :=
  let written := attempt.serializeToArray world.reusable
  let world := { world with reusable := written.2 }
  if written.1 then rdKafkaProduce attempt.refused written.2.bytes world else (false, world)

/-- A payload is named by the number of allocations before its own. -/
def produceOwned (attempt : Attempt wire) (world : World wire) :
    Except ProduceError Bool × World wire :=
  match attempt.malloc with
  | none => (.error .badAlloc, world)
  | some memory =>
    let payload := world.allocated.length
    let world := { world with allocated := world.allocated ++ [payload] }
    let written := attempt.serializeToArray memory
    if written.1 then
      match rdKafkaProduce attempt.refused written.2.bytes world with
      | (true, world) => (.ok true, { world with handed := world.handed ++ [payload] })
      | (false, world) => (.ok false, world.free payload)
    else (.ok false, world.free payload)

def produceOnce (mode : Bytes) (attempt : Attempt wire) (world : World wire) :
    Except ProduceError Bool × World wire :=
  if mode = ascii "copy" then
    let produced := produceCopy attempt world
    (.ok produced.1, produced.2)
  else produceOwned attempt world

/-- `produce_with_retry`, on the attempts it makes; when they are used up without
a return or a throw, the loop is still going. -/
def produceWithRetry (library : Librdkafka) (mode : Bytes) :
    List (Attempt wire) → World wire → CallResult × World wire
  | [], world => (.retrying, world)
  | attempt :: rest, world =>
    match produceOnce mode attempt world with
    | (.error error, world) => (.threw error, world)
    | (.ok true, world) => (.returned true, world)
    | (.ok false, world) =>
      if world.lastError ≠ .queueFull then
        (.threw (.runtimeError (kafkaError library (ascii "rd_kafka_produce") world.lastError)),
          world)
      else
        produceWithRetry library mode rest (rdKafkaPoll library attempt world)

/-- Each payload allocated between two states was freed or handed over, once. -/
def PayloadsSettled (before after : World wire) : Prop :=
  ∃ payloads freed handed,
    after.allocated = before.allocated ++ payloads ∧
    after.freed = before.freed ++ freed ∧
    after.handed = before.handed ++ handed ∧
    payloads = List.range' before.allocated.length payloads.length ∧
    (freed ++ handed).Perm payloads

namespace PayloadsSettled

theorem same {before after : World wire} (hallocated : after.allocated = before.allocated)
    (hfreed : after.freed = before.freed) (hhanded : after.handed = before.handed) :
    PayloadsSettled before after :=
  ⟨[], [], [], by simp [hallocated], by simp [hfreed], by simp [hhanded], rfl, List.Perm.nil⟩

theorem trans {before middle after : World wire} (first : PayloadsSettled before middle)
    (second : PayloadsSettled middle after) : PayloadsSettled before after := by
  obtain ⟨payloads, freed, handed, hallocated, hfreed, hhanded, hfresh, hperm⟩ := first
  obtain ⟨payloads', freed', handed', hallocated', hfreed', hhanded', hfresh', hperm'⟩ := second
  refine ⟨payloads ++ payloads', freed ++ freed', handed ++ handed', ?_, ?_, ?_, ?_, ?_⟩
  · rw [hallocated', hallocated, List.append_assoc]
  · rw [hfreed', hfreed, List.append_assoc]
  · rw [hhanded', hhanded, List.append_assoc]
  · rw [hallocated, List.length_append] at hfresh'
    have happend := @List.range'_append before.allocated.length payloads.length payloads'.length 1
    rw [Nat.one_mul, ← hfresh, ← hfresh'] at happend
    rw [List.length_append]
    exact happend
  · have hshuffle : (freed ++ freed' ++ (handed ++ handed')).Perm
        (freed ++ handed ++ (freed' ++ handed')) := by
      rw [List.append_assoc, List.append_assoc]
      apply List.Perm.append_left
      rw [← List.append_assoc, ← List.append_assoc]
      exact List.Perm.append_right _ List.perm_append_comm
    exact hshuffle.trans (hperm.append hperm')

end PayloadsSettled

/-- What one attempt does: it accepts the complete serialization when it succeeds
and nothing otherwise, runs no delivery report, and leaves no payload behind. -/
structure Attempted (before after : World wire) (result : Except ProduceError Bool) : Prop where
  deliveries : after.deliveries = match result with
    | .ok true => before.deliveries.accept wire
    | _ => before.deliveries
  errors : after.deliveryErrors = before.deliveryErrors
  settled : PayloadsSettled before after

theorem produceCopy_spec (attempt : Attempt wire) (before : World wire) :
    Attempted before (produceCopy attempt before).2 (.ok (produceCopy attempt before).1) := by
  unfold produceCopy
  by_cases hserialized : (attempt.serializeToArray before.reusable).1 = true
  · have hwire := attempt.complete _ hserialized
    simp only [hserialized, hwire, if_true]
    cases attempt.refused with
    | none => exact ⟨rfl, rfl, PayloadsSettled.same rfl rfl rfl⟩
    | some error => exact ⟨rfl, rfl, PayloadsSettled.same rfl rfl rfl⟩
  · simp only [hserialized]
    exact ⟨rfl, rfl, PayloadsSettled.same rfl rfl rfl⟩

theorem produceOwned_spec (attempt : Attempt wire) (before : World wire) :
    Attempted before (produceOwned attempt before).2 (produceOwned attempt before).1 := by
  have hfresh : [before.allocated.length] = List.range' before.allocated.length 1 := rfl
  unfold produceOwned
  cases attempt.malloc with
  | none => exact ⟨rfl, rfl, PayloadsSettled.same rfl rfl rfl⟩
  | some memory =>
    by_cases hserialized : (attempt.serializeToArray memory).1 = true
    · have hwire := attempt.complete _ hserialized
      simp only [hserialized, hwire, if_true]
      cases attempt.refused with
      | none =>
        exact ⟨rfl, rfl, [_], [], [_], rfl, (List.append_nil _).symm, rfl, hfresh,
          List.Perm.refl _⟩
      | some error =>
        exact ⟨rfl, rfl, [_], [_], [], rfl, rfl, (List.append_nil _).symm, hfresh,
          List.Perm.refl _⟩
    · simp only [hserialized]
      exact ⟨rfl, rfl, [_], [_], [], rfl, rfl, (List.append_nil _).symm, hfresh,
        List.Perm.refl _⟩

theorem produceOnce_spec {mode : Bytes} {attempt : Attempt wire} {before after : World wire}
    {result : Except ProduceError Bool} (h : produceOnce mode attempt before = (result, after)) :
    Attempted before after result := by
  unfold produceOnce at h
  by_cases hcopy : mode = ascii "copy"
  · rw [if_pos hcopy] at h
    obtain ⟨rfl, rfl⟩ := Prod.mk.inj h
    exact produceCopy_spec attempt before
  · rw [if_neg hcopy] at h
    have hspec := produceOwned_spec attempt before
    rw [h] at hspec
    exact hspec

/-- Delivery reports were served between two states, and each failed one counted. -/
def Reports (library : Librdkafka) (before after : World wire) (since : List ℕ) : Prop :=
  after.deliveries.reported = before.deliveries.reported ++ since ∧
    after.deliveryErrors = before.deliveryErrors + BitVec.ofNat 64 (since.countP library.failed)

theorem Reports.trans {library : Librdkafka} {before middle after : World wire}
    {first second : List ℕ} (h : Reports library before middle first)
    (h' : Reports library middle after second) :
    Reports library before after (first ++ second) := by
  refine ⟨?_, ?_⟩
  · rw [h'.1, h.1, List.append_assoc]
  · rw [h'.2, h.2, List.countP_append, BitVec.ofNat_add, BitVec.add_assoc]

theorem Attempted.reports {library : Librdkafka} {before after : World wire}
    {result : Except ProduceError Bool} (h : Attempted before after result) :
    Reports library before after [] := by
  refine ⟨?_, by rw [h.errors]; exact (BitVec.add_zero _).symm⟩
  rw [h.deliveries, List.append_nil]
  split <;> rfl

theorem deliveryCallback_foldl (library : Librdkafka) (messages : List ℕ) (errors : BitVec 64) :
    messages.foldl (fun errors message => deliveryCallback (library.report message) errors)
      errors = errors + BitVec.ofNat 64 (messages.countP library.failed) := by
  induction messages generalizing errors with
  | nil => simp
  | cons message rest ih =>
    rw [List.foldl_cons, ih, List.countP_cons, BitVec.ofNat_add]
    by_cases hreport : library.report message = .noError
    · simp [deliveryCallback, Librdkafka.failed, hreport]
    · simp [deliveryCallback, Librdkafka.failed, hreport, BitVec.add_assoc, BitVec.add_comm]

theorem serve_reports (library : Librdkafka) (world : World wire) (ready : ℕ → Bool) :
    Reports library world (world.serve library ready)
      (world.deliveries.outstanding.filter ready) :=
  ⟨rfl, deliveryCallback_foldl library _ _⟩

/-- How an attempt that is not the last one known ends the call or continues it. -/
theorem produceWithRetry_cons {library : Librdkafka} {mode : Bytes} {attempt : Attempt wire}
    {rest : List (Attempt wire)} {before after : World wire} {result : CallResult}
    (h : produceWithRetry library mode (attempt :: rest) before = (result, after)) :
    (∃ error, result = .threw error ∧ ∃ outcome, outcome ≠ .ok true ∧
        produceOnce mode attempt before = (outcome, after)) ∨
      (result = .returned true ∧ produceOnce mode attempt before = (.ok true, after)) ∨
      ∃ middle, produceOnce mode attempt before = (.ok false, middle) ∧
        middle.lastError = .queueFull ∧
        produceWithRetry library mode rest (rdKafkaPoll library attempt middle) =
          (result, after) := by
  unfold produceWithRetry at h
  split at h
  · rename_i error middle honce
    obtain ⟨rfl, rfl⟩ := Prod.mk.inj h
    exact Or.inl ⟨error, rfl, .error error, nofun, honce⟩
  · rename_i middle honce
    obtain ⟨rfl, rfl⟩ := Prod.mk.inj h
    exact Or.inr (Or.inl ⟨rfl, honce⟩)
  · rename_i middle honce
    split at h
    · obtain ⟨rfl, rfl⟩ := Prod.mk.inj h
      exact Or.inl ⟨_, rfl, .ok false, nofun, honce⟩
    · rename_i hfull
      exact Or.inr (Or.inr ⟨middle, honce, not_not.mp hfull, h⟩)

/-- What a whole call does, however often it goes round. -/
structure Called (library : Librdkafka) (before after : World wire) (result : CallResult) :
    Prop where
  accepted : after.deliveries.accepted = match result with
    | .returned _ => before.deliveries.accepted ++ [wire]
    | _ => before.deliveries.accepted
  value : ∀ value, result = .returned value → value = true
  reports : ∃ since, Reports library before after since
  settled : PayloadsSettled before after

theorem produceWithRetry_spec {library : Librdkafka} {mode : Bytes}
    {attempts : List (Attempt wire)} {before after : World wire} {result : CallResult}
    (h : produceWithRetry library mode attempts before = (result, after)) :
    Called library before after result := by
  induction attempts generalizing before with
  | nil =>
    obtain ⟨rfl, rfl⟩ := Prod.mk.inj h
    exact {
      accepted := rfl
      value := nofun
      reports := ⟨[], (List.append_nil _).symm, (BitVec.add_zero _).symm⟩
      settled := PayloadsSettled.same rfl rfl rfl }
  | cons attempt rest ih =>
    rcases produceWithRetry_cons h with ⟨error, rfl, outcome, hfailed, honce⟩ | ⟨rfl, honce⟩ |
      ⟨middle, honce, -, hrest⟩
    · have hspec := produceOnce_spec honce
      exact {
        accepted := by
          rw [hspec.deliveries]
          split
          · exact absurd rfl hfailed
          · rfl
        value := nofun
        reports := ⟨[], hspec.reports⟩
        settled := hspec.settled }
    · have hspec := produceOnce_spec honce
      exact {
        accepted := by rw [hspec.deliveries]; rfl
        value := by
          intro value hvalue
          cases hvalue
          rfl
        reports := ⟨[], hspec.reports⟩
        settled := hspec.settled }
    · have hspec := produceOnce_spec honce
      have hcalled := ih hrest
      obtain ⟨since, hsince⟩ := hcalled.reports
      have hserved : Reports library middle (rdKafkaPoll library attempt middle) _ :=
        serve_reports library middle attempt.ready
      exact {
        accepted := by
          have hsame : middle.deliveries = before.deliveries := hspec.deliveries
          rw [hcalled.accepted, ← hsame]
          rfl
        value := hcalled.value
        reports := ⟨_, (hspec.reports.trans hserved).trans hsince⟩
        settled := (hspec.settled.trans (PayloadsSettled.same rfl rfl rfl)).trans
          hcalled.settled }

/-- `produce_with_retry`, over any number of attempts with any outcomes: when it
returns, exactly one message was accepted and it is the complete serialization;
when it throws, none was; and each payload allocated by the call has been freed
by it or handed to librdkafka, exactly once in all. -/
theorem produceWithRetry_exactly_once (library : Librdkafka) (mode : Bytes)
    (attempts : List (Attempt wire)) {before after : World wire} {result : CallResult}
    (h : produceWithRetry library mode attempts before = (result, after)) :
    (∀ value, result = .returned value → value = true ∧
      after.deliveries.accepted = before.deliveries.accepted ++ [wire]) ∧
    (∀ error, result = .threw error →
      after.deliveries.accepted = before.deliveries.accepted) ∧
    ∃ payloads freed handed,
      after.allocated = before.allocated ++ payloads ∧
      after.freed = before.freed ++ freed ∧ after.handed = before.handed ++ handed ∧
      (freed ++ handed).Perm payloads ∧
      ∀ payload ∈ payloads, freed.count payload + handed.count payload = 1 := by
  have hcalled := produceWithRetry_spec h
  refine ⟨?_, ?_, ?_⟩
  · rintro value rfl
    exact ⟨hcalled.value value rfl, hcalled.accepted⟩
  · rintro error rfl
    exact hcalled.accepted
  · obtain ⟨payloads, freed, handed, hallocated, hfreed, hhanded, hfresh, hperm⟩ :=
      hcalled.settled
    refine ⟨payloads, freed, handed, hallocated, hfreed, hhanded, hperm, ?_⟩
    intro payload hmem
    have hnodup : payloads.Nodup := by
      rw [hfresh]
      exact List.nodup_range'
    rw [← List.count_append, hperm.count_eq]
    exact List.count_eq_one_of_mem hnodup hmem

/-- Owned mode, refused once for a full queue and then accepted. -/
theorem produceWithRetry_exactly_once_second_attempt :
    let attempt (refused : Option RespErr) : Attempt [7] :=
      { malloc := some ⟨[0], rfl⟩
        serializeToArray := fun _ => (true, ⟨[7], rfl⟩)
        complete := fun _ _ => rfl
        refused := refused
        ready := fun _ => true
        polled := .noError }
    ∃ after : World [7],
      produceWithRetry ⟨fun _ => [], fun _ => .noError⟩ (ascii "owned")
        [attempt (some .queueFull), attempt none] (World.initial ⟨[0], rfl⟩) =
          (.returned true, after) ∧
      after.deliveries.accepted = [[7]] := by
  intro attempt
  obtain ⟨after, hrun⟩ : ∃ after : World [7],
      produceWithRetry ⟨fun _ => [], fun _ => .noError⟩ (ascii "owned")
        [attempt (some .queueFull), attempt none] (World.initial ⟨[0], rfl⟩) =
          (.returned true, after) := ⟨_, rfl⟩
  exact ⟨after, hrun, ((produceWithRetry_exactly_once _ _ _ hrun).1 true rfl).2⟩

end Attempts

end ProtobufKafkaBench.KafkaProducer

import ProtobufKafkaBench.KafkaProduce

/-!
Why `produce_with_retry` goes round again. A failed serialization and a refused
message are one boolean, and the loop tells them apart by the thread's last
error, which a failed serialization does not set. So a retry is right as long as
no serialization fails while that error is still a full queue from before.
-/
namespace ProtobufKafkaBench.KafkaProducer

open ByteBuffers

section Outcomes

variable {wire : Bytes}

/-- The attempt's `SerializeToArray` succeeds, into the vector or the fresh memory. -/
def Serializes (mode : Bytes) (attempt : Attempt wire) (world : World wire) : Prop :=
  if mode = ascii "copy" then (attempt.serializeToArray world.reusable).1 = true
  else ∃ memory, attempt.malloc = some memory ∧ (attempt.serializeToArray memory).1 = true

def SerializationFails (mode : Bytes) (attempt : Attempt wire) (world : World wire) : Prop :=
  if mode = ascii "copy" then (attempt.serializeToArray world.reusable).1 = false
  else ∃ memory, attempt.malloc = some memory ∧ (attempt.serializeToArray memory).1 = false

/-- A failed serialization leaves the thread's last error as it was. -/
theorem produceOnce_of_fails {mode : Bytes} {attempt : Attempt wire} {world : World wire}
    (h : SerializationFails mode attempt world) :
    ∃ middle, produceOnce mode attempt world = (.ok false, middle) ∧
      middle.lastError = world.lastError := by
  unfold SerializationFails at h
  unfold produceOnce
  by_cases hcopy : mode = ascii "copy"
  · rw [if_pos hcopy] at h
    simp [hcopy, produceCopy, h]
  · rw [if_neg hcopy] at h
    obtain ⟨memory, hmalloc, hfailed⟩ := h
    simp [hcopy, produceOwned, hmalloc, hfailed, World.free]

theorem rdKafkaProduce_eq_false {refused : Option RespErr} {payload : Bytes}
    {world middle : World wire} (h : rdKafkaProduce refused payload world = (false, middle)) :
    refused = some middle.lastError := by
  cases refused with
  | none => simp [rdKafkaProduce] at h
  | some error =>
    obtain ⟨-, rfl⟩ := Prod.mk.inj h
    rfl

/-- The two ways in which an attempt ends with false. -/
theorem produceOnce_eq_false {mode : Bytes} {attempt : Attempt wire} {world middle : World wire}
    (h : produceOnce mode attempt world = (.ok false, middle)) :
    SerializationFails mode attempt world ∧ middle.lastError = world.lastError ∨
      Serializes mode attempt world ∧ attempt.refused = some middle.lastError := by
  by_cases hfails : SerializationFails mode attempt world
  · obtain ⟨other, hother, hlast⟩ := produceOnce_of_fails hfails
    obtain ⟨-, rfl⟩ := Prod.mk.inj (hother.symm.trans h)
    exact Or.inl ⟨hfails, hlast⟩
  · right
    unfold SerializationFails at hfails
    unfold produceOnce at h
    unfold Serializes
    by_cases hcopy : mode = ascii "copy"
    · rw [if_pos hcopy] at hfails h ⊢
      have hserialized := Bool.eq_true_of_not_eq_false hfails
      simp only [produceCopy, hserialized, ↓reduceIte] at h
      obtain ⟨hresult, hmiddle⟩ := Prod.mk.inj h
      refine ⟨hserialized, rdKafkaProduce_eq_false (Prod.ext ?_ hmiddle)⟩
      exact Except.ok.inj hresult
    · rw [if_neg hcopy] at hfails h ⊢
      cases hmalloc : attempt.malloc with
      | none => simp [produceOwned, hmalloc] at h
      | some memory =>
        have hserialized : (attempt.serializeToArray memory).1 = true :=
          Bool.eq_true_of_not_eq_false fun hfalse => hfails ⟨memory, hmalloc, hfalse⟩
        simp only [produceOwned, hmalloc, hserialized, ↓reduceIte] at h
        refine ⟨⟨memory, rfl, hserialized⟩, ?_⟩
        split at h
        · simp at h
        · next refusedWorld hproduce =>
          obtain ⟨-, rfl⟩ := Prod.mk.inj h
          have hrefused := rdKafkaProduce_eq_false hproduce
          exact hrefused

end Outcomes

section Loop

variable {wire : Bytes} {library : Librdkafka} {mode : Bytes} {before world : World wire}

/-- After these attempts the loop is still going, in this state. -/
def StillGoing (library : Librdkafka) (mode : Bytes) (attempts : List (Attempt wire))
    (before world : World wire) : Prop :=
  produceWithRetry library mode attempts before = (.retrying, world)

theorem StillGoing.cons_iff {attempt : Attempt wire} {rest : List (Attempt wire)} :
    StillGoing library mode (attempt :: rest) before world ↔
      ∃ middle, produceOnce mode attempt before = (.ok false, middle) ∧
        middle.lastError = .queueFull ∧
        StillGoing library mode rest (rdKafkaPoll library attempt middle) world := by
  constructor
  · intro h
    rcases produceWithRetry_cons h with ⟨error, hthrew, -⟩ | ⟨hreturned, -⟩ | hretry
    · cases hthrew
    · cases hreturned
    · exact hretry
  · intro h
    obtain ⟨middle, honce, hfull, hrest⟩ := h
    unfold StillGoing produceWithRetry
    simp only [honce, hfull, ne_eq, not_true_eq_false, ↓reduceIte]
    exact hrest

theorem StillGoing.append {earlier later : List (Attempt wire)}
    (h : StillGoing library mode earlier before world) :
    produceWithRetry library mode (earlier ++ later) before =
      produceWithRetry library mode later world := by
  induction earlier generalizing before with
  | nil =>
    obtain ⟨-, rfl⟩ := Prod.mk.inj h
    rfl
  | cons attempt rest ih =>
    obtain ⟨middle, honce, hfull, hrest⟩ := StillGoing.cons_iff.mp h
    rw [← ih hrest, List.cons_append, produceWithRetry]
    simp only [honce, hfull, ne_eq, not_true_eq_false, ↓reduceIte]

/-- The last error before an attempt: what the call started with, or what
`rd_kafka_poll` left after the attempt before. -/
def leftOver (before : World wire) (earlier : List (Attempt wire)) : RespErr :=
  match earlier.getLast? with
  | none => before.lastError
  | some previous => previous.polled

theorem StillGoing.lastError {earlier : List (Attempt wire)}
    (h : StillGoing library mode earlier before world) :
    world.lastError = leftOver before earlier := by
  induction earlier generalizing before with
  | nil =>
    obtain ⟨-, rfl⟩ := Prod.mk.inj h
    rfl
  | cons attempt rest ih =>
    obtain ⟨middle, -, -, hrest⟩ := StillGoing.cons_iff.mp h
    rw [ih hrest]
    cases rest with
    | nil => rfl
    | cons next rest =>
      simp only [leftOver, List.getLast?_cons_cons]
      cases hlast : (next :: rest).getLast? with
      | none => simp at hlast
      | some previous => rfl

/-- Of every attempt that the loop reaches: it goes round again only if this
attempt was serialized and refused for a full queue, and if the serialization
failed the call ends with an exception. -/
def RetriesJustified (library : Librdkafka) (mode : Bytes) (attempts : List (Attempt wire))
    (before : World wire) : Prop :=
  ∀ earlier attempt later, attempts = earlier ++ attempt :: later →
    ∀ world, StillGoing library mode earlier before world →
      (∀ again, StillGoing library mode (earlier ++ [attempt]) before again →
        Serializes mode attempt world ∧ attempt.refused = some .queueFull) ∧
      (SerializationFails mode attempt world → ∃ error after,
        produceWithRetry library mode (earlier ++ [attempt]) before = (.threw error, after))

/-- Retries are justified exactly in the calls where no attempt that is reached
fails to serialize while a full queue is left over as the last error. -/
theorem retriesJustified_iff (library : Librdkafka) (mode : Bytes)
    (attempts : List (Attempt wire)) (before : World wire) :
    RetriesJustified library mode attempts before ↔
      ∀ earlier attempt later, attempts = earlier ++ attempt :: later →
        ∀ world, StillGoing library mode earlier before world →
          SerializationFails mode attempt world → leftOver before earlier ≠ .queueFull := by
  constructor
  · intro h earlier attempt later hattempts world hgoing hfails hleft
    obtain ⟨-, hthrows⟩ := h earlier attempt later hattempts world hgoing
    obtain ⟨error, after, hthrew⟩ := hthrows hfails
    obtain ⟨middle, honce, hlast⟩ := produceOnce_of_fails hfails
    rw [hgoing.lastError, hleft] at hlast
    have hagain : StillGoing library mode [attempt] world _ :=
      StillGoing.cons_iff.mpr ⟨middle, honce, hlast, rfl⟩
    rw [hgoing.append, hagain] at hthrew
    cases hthrew
  · intro h earlier attempt later hattempts world hgoing
    have hfresh := h earlier attempt later hattempts world hgoing
    constructor
    · intro again hagain
      unfold StillGoing at hagain
      rw [hgoing.append] at hagain
      obtain ⟨middle, honce, hfull, -⟩ := StillGoing.cons_iff.mp hagain
      rcases produceOnce_eq_false honce with ⟨hfails, hlast⟩ | ⟨hserializes, hrefused⟩
      · rw [hlast, hgoing.lastError] at hfull
        exact absurd hfull (hfresh hfails)
      · rw [hfull] at hrefused
        exact ⟨hserializes, hrefused⟩
    · intro hfails
      obtain ⟨middle, honce, hlast⟩ := produceOnce_of_fails hfails
      have hnot : middle.lastError ≠ .queueFull := by
        rw [hlast, hgoing.lastError]
        exact hfresh hfails
      rw [hgoing.append, produceWithRetry]
      simp only [honce, ne_eq, hnot, not_false_eq_true, ↓reduceIte]
      exact ⟨_, _, rfl⟩

/-- Serializations that keep failing behind a full queue keep the loop going for ever. -/
theorem stillGoing_of_failing {attempts : List (Attempt wire)}
    (hlast : before.lastError = .queueFull)
    (hfails : ∀ attempt ∈ attempts, (∀ world, SerializationFails mode attempt world) ∧
      attempt.polled = .queueFull) :
    ∃ world, StillGoing library mode attempts before world := by
  induction attempts generalizing before with
  | nil => exact ⟨before, rfl⟩
  | cons attempt rest ih =>
    obtain ⟨hfailed, hpolled⟩ := hfails attempt List.mem_cons_self
    obtain ⟨middle, honce, hsame⟩ := produceOnce_of_fails (hfailed before)
    obtain ⟨world, hgoing⟩ := @ih (rdKafkaPoll library attempt middle) hpolled
      fun other hother => hfails other (List.mem_cons_of_mem _ hother)
    exact ⟨world, StillGoing.cons_iff.mpr ⟨middle, honce, hsame.trans hlast, hgoing⟩⟩

/-- An attempt in owned mode, after which polling leaves the last error alone. -/
def ownedAttempt (serialized : Bool) (refused : Option RespErr) : Attempt [7] where
  malloc := some ⟨[0], rfl⟩
  serializeToArray _ := (serialized, ⟨[7], rfl⟩)
  complete _ _ := rfl
  refused := refused
  ready _ := false
  polled := .queueFull

/-- Refused once for a full queue, then never serialized again: the loop goes on
where the second attempt should have ended it. -/
theorem ownedAttempt_not_justified :
    ¬ RetriesJustified ⟨fun _ => [], fun _ => .noError⟩ (ascii "owned")
      [ownedAttempt true (some .queueFull), ownedAttempt false none]
      (World.initial ⟨[0], rfl⟩) := by
  intro h
  have hsecond := h [ownedAttempt true (some .queueFull)] (ownedAttempt false none) [] rfl _ rfl
  have hfails : ∀ world, SerializationFails (ascii "owned") (ownedAttempt false none) world :=
    fun world => ⟨⟨[0], rfl⟩, rfl, rfl⟩
  obtain ⟨error, after, hthrew⟩ := hsecond.2 (hfails _)
  cases hthrew

end Loop

end ProtobufKafkaBench.KafkaProducer

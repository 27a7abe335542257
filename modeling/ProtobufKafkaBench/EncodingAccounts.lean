import ProtobufKafkaBench.ConcurrentEncoding

/-!
The bookkeeping of the concurrency benchmark along any schedule. Each mutex is
owned by the worker inside its section, so the buffer has one writer and the
common checksum no lost update. A worker's counter and checksum follow its own
serializations, and the common checksum is the sum over the workers that have
stored theirs.
-/
namespace ProtobufKafkaBench.Concurrency

open ByteBuffers WireFormat MarketEvents CommandLine Mutexes Transitions

section Calls

variable {config : Config}

/-- The serializations of the current repetition, with their outcomes. -/
abbrev Calls (config : Config) := List (ThreadIndex config × Bool)

def recordCall (calls : Calls config) : Label config → Calls config
  | .startRepetition => []
  | .serialized index ok => calls ++ [(index, ok)]
  | .other => calls

/-- What the workers have serialized since the last repetition started. -/
def callsOfRepetition (labels : List (Label config)) : Calls config := labels.foldl recordCall []

theorem callsOfRepetition_snoc (labels : List (Label config)) (label : Label config) :
    callsOfRepetition (labels ++ [label]) = recordCall (callsOfRepetition labels) label := by
  simp [callsOfRepetition]

def attempts (calls : Calls config) (index : ThreadIndex config) : ℕ :=
  calls.countP fun call => call.1 = index

def successes (calls : Calls config) (index : ThreadIndex config) : ℕ :=
  calls.countP fun call => call.1 = index ∧ call.2 = true

theorem attempts_snoc (calls : Calls config) (index other : ThreadIndex config) (ok : Bool) :
    attempts (calls ++ [(index, ok)]) other =
      attempts calls other + if index = other then 1 else 0 := by
  simp [attempts, List.countP_cons]

theorem successes_snoc (calls : Calls config) (index other : ThreadIndex config) (ok : Bool) :
    successes (calls ++ [(index, ok)]) other =
      successes calls other + if index = other ∧ ok = true then 1 else 0 := by
  simp [successes, List.countP_cons]

/-- Every serialization was made by one worker. -/
theorem sum_attempts (calls : Calls config) : ∑ index, attempts calls index = calls.length := by
  induction calls using List.reverseRecOn with
  | nil => simp [attempts]
  | append_singleton calls call ih =>
    obtain ⟨index, ok⟩ := call
    simp only [attempts_snoc, Finset.sum_add_distrib, ih, Finset.sum_ite_eq, Finset.mem_univ,
      ↓reduceIte, List.length_append, List.length_singleton]

theorem successes_eq_attempts {calls : Calls config} (hok : ∀ call ∈ calls, call.2 = true)
    (index : ThreadIndex config) : successes calls index = attempts calls index := by
  apply List.countP_congr
  intro call hmem
  simp [hok call hmem]

end Calls

section Invariant

variable {config : Config}

/-- Inside the section of `shared_mutex`. -/
def HoldsBuffer (worker : Worker) : Prop :=
  worker.pc = .serializingShared ∨ ∃ ok, worker.pc = .unlockingBuffer ok

/-- Inside the section of `checksum_mutex`. -/
def HoldsChecksum (worker : Worker) : Prop :=
  worker.pc = .loadingChecksum ∨ (∃ loaded, worker.pc = .storingChecksum loaded) ∨
    worker.pc = .unlockingChecksum

/-- What a worker has added to the common checksum so far. -/
def contribution (worker : Worker) : BitVec 64 :=
  match worker.pc with
  | .unlockingChecksum | .exited => worker.localChecksum
  | _ => 0

/-- A worker's locals after `attempted` serializations, `succeeded` of them successful. -/
def Counts (config : Config) (attempted succeeded : ℕ) (worker : Worker) : Prop :=
  match worker.pc with
  | .absent | .arriving | .waiting => attempted = 0 ∧ succeeded = 0
  | .testing => attempted = worker.i.toNat ∧ worker.i ≤ config.share ∧
      worker.localChecksum = succeeded • bytes
  | .lockingBuffer | .serializingShared | .serializingOwn =>
      attempted = worker.i.toNat ∧ worker.i < config.share ∧
      worker.localChecksum = succeeded • bytes
  | .unlockingBuffer ok | .adding ok =>
      attempted = worker.i.toNat + 1 ∧ worker.i < config.share ∧
      worker.localChecksum + (if ok then bytes else 0) = succeeded • bytes
  | .lockingChecksum | .loadingChecksum | .storingChecksum _ | .unlockingChecksum | .exited =>
      attempted = config.share.toNat ∧ worker.localChecksum = succeeded • bytes

def Idle (worker : Worker) : Prop := worker.pc = .absent ∨ worker.pc = .exited

/-- Which workers are known to be idle, by the position of the main thread. -/
def ThreadsAt (main : MainPc) (worker : ThreadIndex config → Worker) : Prop :=
  match main with
  | .warming _ | .testing | .finished => ∀ index, Idle (worker index)
  | .spawning next => ∀ index : ThreadIndex config, next ≤ index → (worker index).pc = .absent
  | .joining next => ∀ index : ThreadIndex config, index < next → (worker index).pc = .exited
  | .reporting => ∀ index, (worker index).pc = .exited
  | .arriving | .waiting => True

structure Accounts (calls : Calls config) (state : State config) : Prop where
  threads : ThreadsAt state.main state.worker
  buffer : Guards state.sharedMutex HoldsBuffer state.worker
  sum : Guards state.checksumMutex HoldsChecksum state.worker
  counts : ∀ index, Counts config (attempts calls index) (successes calls index)
    (state.worker index)
  loaded : ∀ index loaded, (state.worker index).pc = .storingChecksum loaded →
    loaded = state.checksum
  checksum : state.checksum = ∑ index, contribution (state.worker index)

theorem accounts_initial : Accounts [] (State.initial config) where
  threads := fun _ => Or.inl rfl
  buffer := Guards.free fun _ => by simp [State.initial, HoldsBuffer]
  sum := Guards.free fun _ => by simp [State.initial, HoldsChecksum]
  counts := fun _ => ⟨rfl, rfl⟩
  loaded := fun _ _ h => by simp [State.initial] at h
  checksum := by simp [State.initial, contribution]

end Invariant

section WorkerSteps

variable {config : Config} {calls : Calls config} {state state' : State config}
  {label : Label config} {index : ThreadIndex config}

/-- A worker's step is its own: it was not idle, and nobody else moves. -/
theorem WorkerStep.frame (h : WorkerStep config index state label state') :
    ¬ Idle (state.worker index) ∧ state'.main = state.main ∧
      ∃ next, state'.worker = Function.update state.worker index next := by
  cases h <;> exact ⟨by simp [Idle, *], rfl, _, rfl⟩

theorem ThreadsAt.work {main : MainPc} {worker : ThreadIndex config → Worker} {next : Worker}
    (h : ThreadsAt main worker) (hbusy : ¬ Idle (worker index)) :
    ThreadsAt main (Function.update worker index next) := by
  have hother : ∀ {P : Worker → Prop} {other}, (P (worker other) → Idle (worker other)) →
      P (worker other) → P (Function.update worker index next other) := by
    intro P other hidle hother
    by_cases heq : other = index
    · subst heq
      exact absurd (hidle hother) hbusy
    · rwa [Function.update_of_ne heq]
  cases main with
  | warming | testing | finished => exact fun other => hother id (h other)
  | spawning k =>
    exact fun other hk => @hother (fun w => w.pc = .absent) other Or.inl (h other hk)
  | joining k =>
    exact fun other hk => @hother (fun w => w.pc = .exited) other Or.inr (h other hk)
  | reporting => exact fun other => @hother (fun w => w.pc = .exited) other Or.inr (h other)
  | arriving | waiting => trivial

theorem buffer_work (h : WorkerStep config index state label state')
    (hbuffer : Guards state.sharedMutex HoldsBuffer state.worker) :
    Guards state'.sharedMutex HoldsBuffer state'.worker := by
  cases h with
  | lockBuffer hpc hfree =>
    rw [hfree] at hbuffer
    exact hbuffer.lock (by simp [HoldsBuffer])
  | unlockBuffer ok hpc => exact hbuffer.unlock (by simp [HoldsBuffer, hpc]) (by simp [HoldsBuffer])
  -- the other steps stay on one side of the section's border
  | _ => exact hbuffer.move (by simp [HoldsBuffer, *])

theorem sum_work (h : WorkerStep config index state label state')
    (hsum : Guards state.checksumMutex HoldsChecksum state.worker) :
    Guards state'.checksumMutex HoldsChecksum state'.worker := by
  cases h with
  | lockChecksum hpc hfree =>
    rw [hfree] at hsum
    exact hsum.lock (by simp [HoldsChecksum])
  | unlockChecksum hpc =>
    exact hsum.unlock (by simp [HoldsChecksum, hpc]) (by simp [HoldsChecksum])
  | _ => exact hsum.move (by simp [HoldsChecksum, *])

/-- Only the moving worker's counts have to be looked at again. -/
theorem counts_move {next : Worker}
    (hcounts : ∀ other, Counts config (attempts calls other) (successes calls other)
      (state.worker other))
    (hnext : Counts config (attempts calls index) (successes calls index) next) :
    ∀ other, Counts config (attempts calls other) (successes calls other)
      (Function.update state.worker index next other) := by
  intro other
  by_cases heq : other = index
  · subst heq
    rwa [Function.update_self]
  · rw [Function.update_of_ne heq]
    exact hcounts other

theorem counts_serialize {next : Worker} {ok : Bool}
    (hcounts : ∀ other, Counts config (attempts calls other) (successes calls other)
      (state.worker other))
    (hnext : Counts config (attempts calls index + 1)
      (successes calls index + if ok = true then 1 else 0) next) :
    ∀ other, Counts config (attempts (calls ++ [(index, ok)]) other)
      (successes (calls ++ [(index, ok)]) other)
      (Function.update state.worker index next other) := by
  intro other
  rw [attempts_snoc, successes_snoc]
  by_cases heq : other = index
  · subst heq
    simpa using hnext
  · rw [Function.update_of_ne heq, if_neg (Ne.symm heq), if_neg (fun h => heq h.1.symm)]
    exact hcounts other

/-- A serialization is counted at once, and its success added to the checksum later. -/
theorem pending_checksum {localChecksum : BitVec 64} {succeeded : ℕ} (ok : Bool)
    (h : localChecksum = succeeded • bytes) :
    localChecksum + (if ok then bytes else 0) =
      (succeeded + if ok = true then 1 else 0) • bytes := by
  cases ok with
  | false => simpa using h
  | true => rw [if_pos rfl, if_pos rfl, succ_nsmul, h]

theorem counts_work (h : WorkerStep config index state label state')
    (hcounts : ∀ other, Counts config (attempts calls other) (successes calls other)
      (state.worker other)) :
    ∀ other, Counts config (attempts (recordCall calls label) other)
      (successes (recordCall calls label) other) (state'.worker other) := by
  have hnow := hcounts index
  cases h with
  | arrive _ hpc =>
    simp only [Counts, hpc] at hnow
    exact counts_move hcounts hnow
  | pass hpc =>
    simp only [Counts, hpc] at hnow
    apply counts_move hcounts
    exact ⟨hnow.1, BitVec.le_def.mpr (Nat.zero_le _), by simp [hnow.2]⟩
  | enterShared hpc hi =>
    simp only [Counts, hpc] at hnow
    exact counts_move hcounts ⟨hnow.1, hi, hnow.2.2⟩
  | lockBuffer hpc =>
    simp only [Counts, hpc] at hnow
    exact counts_move hcounts hnow
  | serializeShared ok hpc =>
    simp only [Counts, hpc] at hnow
    obtain ⟨hattempted, hi, hsum⟩ := hnow
    exact counts_serialize hcounts ⟨by rw [hattempted], hi, pending_checksum ok hsum⟩
  | unlockBuffer ok hpc =>
    simp only [Counts, hpc] at hnow
    exact counts_move hcounts hnow
  | enterOwn hpc hi =>
    simp only [Counts, hpc] at hnow
    exact counts_move hcounts ⟨hnow.1, hi, hnow.2.2⟩
  | serializeOwn ok hpc =>
    simp only [Counts, hpc] at hnow
    obtain ⟨hattempted, hi, hsum⟩ := hnow
    exact counts_serialize hcounts ⟨by rw [hattempted], hi, pending_checksum ok hsum⟩
  | add ok hpc =>
    simp only [Counts, hpc] at hnow
    obtain ⟨hattempted, hi, hsum⟩ := hnow
    have hnext : ((state.worker index).i + 1).toNat = (state.worker index).i.toNat + 1 := by
      have hlt := BitVec.lt_def.mp hi
      have hshare := config.share.isLt
      rw [BitVec.toNat_add, show (1 : BitVec 64).toNat = 1 by rfl]
      omega
    apply counts_move hcounts
    refine ⟨by rw [hnext, hattempted], ?_, hsum⟩
    rw [BitVec.le_def, hnext]
    exact BitVec.lt_def.mp hi
  | leave hpc hi =>
    simp only [Counts, hpc] at hnow
    obtain ⟨hattempted, hle, hsum⟩ := hnow
    have heq : (state.worker index).i.toNat = config.share.toNat := by
      rw [BitVec.lt_def] at hi
      rw [BitVec.le_def] at hle
      omega
    exact counts_move hcounts ⟨hattempted.trans heq, hsum⟩
  | lockChecksum hpc =>
    simp only [Counts, hpc] at hnow
    exact counts_move hcounts hnow
  | loadChecksum hpc =>
    simp only [Counts, hpc] at hnow
    exact counts_move hcounts hnow
  | storeChecksum loaded hpc =>
    simp only [Counts, hpc] at hnow
    exact counts_move hcounts hnow
  | unlockChecksum hpc =>
    simp only [Counts, hpc] at hnow
    exact counts_move hcounts hnow

/-- A worker that stores has read the checksum as it still is: it owns the mutex. -/
theorem loaded_work (h : WorkerStep config index state label state')
    (hsum : Guards state.checksumMutex HoldsChecksum state.worker)
    (hloaded : ∀ other loaded, (state.worker other).pc = .storingChecksum loaded →
      loaded = state.checksum) :
    ∀ other loaded, (state'.worker other).pc = .storingChecksum loaded →
      loaded = state'.checksum := by
  cases h with
  | loadChecksum hpc =>
    apply (Function.forall_update_iff state.worker fun _ (worker : Worker) =>
      ∀ loaded, worker.pc = .storingChecksum loaded → loaded = state.checksum).mpr
    exact ⟨fun loaded h => (WorkerPc.storingChecksum.inj h).symm, fun other _ => hloaded other⟩
  | storeChecksum loaded hpc =>
    apply (Function.forall_update_iff state.worker fun _ (worker : Worker) =>
      ∀ other, worker.pc = .storingChecksum other →
        other = loaded + (state.worker index).localChecksum).mpr
    refine ⟨fun other h => by simp at h, fun other hne value h => ?_⟩
    have hindex : HoldsChecksum (state.worker index) := Or.inr (Or.inl ⟨loaded, hpc⟩)
    have hother : HoldsChecksum (state.worker other) := Or.inr (Or.inl ⟨value, h⟩)
    exact absurd (hsum.exclusive hother hindex) hne
  -- no other step reads or writes the common checksum
  | _ =>
    apply (Function.forall_update_iff state.worker fun _ (worker : Worker) =>
      ∀ loaded, worker.pc = .storingChecksum loaded → loaded = state.checksum).mpr
    exact ⟨fun loaded h => by simp at h, fun other _ => hloaded other⟩

theorem checksum_work (h : WorkerStep config index state label state')
    (hloaded : ∀ other loaded, (state.worker other).pc = .storingChecksum loaded →
      loaded = state.checksum)
    (hchecksum : state.checksum = ∑ other, contribution (state.worker other)) :
    state'.checksum = ∑ other, contribution (state'.worker other) := by
  cases h with
  | storeChecksum loaded hpc =>
    have hread := hloaded index loaded hpc
    have hbefore : contribution (state.worker index) = 0 := by simp [contribution, hpc]
    have htotal := total_update contribution state.worker index
      { state.worker index with pc := .unlockingChecksum }
    rw [hbefore, sub_zero, ← hchecksum, ← hread] at htotal
    exact htotal.symm
  -- elsewhere neither the checksum nor anyone's part of it changes
  | _ => exact hchecksum.trans (total_update_same _ _ _ _ (by simp [contribution, *])).symm

theorem accounts_work (h : WorkerStep config index state label state')
    (haccounts : Accounts calls state) : Accounts (recordCall calls label) state' where
  threads := by
    obtain ⟨hbusy, hmain, next, hworker⟩ := h.frame
    rw [hmain, hworker]
    exact haccounts.threads.work hbusy
  buffer := buffer_work h haccounts.buffer
  sum := sum_work h haccounts.sum
  counts := counts_work h haccounts.counts
  loaded := loaded_work h haccounts.sum haccounts.loaded
  checksum := checksum_work h haccounts.loaded haccounts.checksum

end WorkerSteps

section MainSteps

variable {config : Config} {calls : Calls config} {state state' : State config}
  {label : Label config}

theorem Idle.outside {worker : Worker} (h : Idle worker) :
    ¬ HoldsBuffer worker ∧ ¬ HoldsChecksum worker := by
  rcases h with h | h <;> simp [HoldsBuffer, HoldsChecksum, h]

/-- The main thread moves without touching a worker, a mutex or the checksum. -/
theorem Accounts.main_moves (haccounts : Accounts calls state) (main : MainPc)
    (hthreads : ThreadsAt main state.worker) (repetition : BitVec 32) (barrier : Barrier)
    (rows : List Row) :
    Accounts calls { state with main, repetition, barrier, rows } where
  threads := hthreads
  buffer := haccounts.buffer
  sum := haccounts.sum
  counts := haccounts.counts
  loaded := haccounts.loaded
  checksum := haccounts.checksum

theorem accounts_startRepetition (haccounts : Accounts calls state)
    (hidle : ∀ index, Idle (state.worker index)) :
    Accounts [] state.startRepetition where
  threads := fun _ _ => rfl
  buffer := by
    have hnone : state.sharedMutex = none :=
      haccounts.buffer.eq_none fun index => (hidle index).outside.1
    change Guards state.sharedMutex HoldsBuffer _
    rw [hnone]
    exact Guards.free fun _ => by simp [State.startRepetition, HoldsBuffer]
  sum := Guards.free fun _ => by simp [State.startRepetition, HoldsChecksum]
  counts := fun _ => ⟨rfl, rfl⟩
  loaded := fun _ _ h => by simp [State.startRepetition] at h
  checksum := by simp [State.startRepetition, contribution]

theorem accounts_spawn (haccounts : Accounts calls state) {index : ThreadIndex config}
    (hthreads : ∀ other : ThreadIndex config, index.val ≤ other →
      (state.worker other).pc = .absent) :
    Accounts calls { state.setWorker index { pc := .arriving } with
      main := .spawning (index + 1) } where
  threads := by
    intro other hother
    have hne : other ≠ index := by
      rintro rfl
      omega
    change (Function.update state.worker index _ other).pc = .absent
    rw [Function.update_of_ne hne]
    exact hthreads other (by omega)
  buffer := haccounts.buffer.move (by simp [HoldsBuffer, hthreads index le_rfl])
  sum := haccounts.sum.move (by simp [HoldsChecksum, hthreads index le_rfl])
  counts := by
    have hnow := haccounts.counts index
    simp only [Counts, hthreads index le_rfl] at hnow
    exact counts_move haccounts.counts hnow
  loaded := by
    apply (Function.forall_update_iff state.worker fun _ (worker : Worker) =>
      ∀ loaded, worker.pc = .storingChecksum loaded → loaded = state.checksum).mpr
    exact ⟨fun loaded h => by simp at h, fun other _ => haccounts.loaded other⟩
  checksum := by
    refine haccounts.checksum.trans (total_update_same _ _ _ _ ?_).symm
    simp [contribution, hthreads index le_rfl]

theorem accounts_main (h : MainStep config state label state') (haccounts : Accounts calls state) :
    Accounts (recordCall calls label) state' := by
  have hthreads := haccounts.threads
  cases h with
  | warmUp i hpc =>
    simp only [hpc, ThreadsAt] at hthreads
    exact haccounts.main_moves (.warming (i + 1)) hthreads _ _ _
  | warm i hpc =>
    simp only [hpc, ThreadsAt] at hthreads
    exact haccounts.main_moves .testing hthreads _ _ _
  | startRepetition hpc =>
    simp only [hpc, ThreadsAt] at hthreads
    exact accounts_startRepetition haccounts hthreads
  | finish hpc =>
    simp only [hpc, ThreadsAt] at hthreads
    exact haccounts.main_moves .finished hthreads _ _ _
  | spawn index hpc =>
    simp only [hpc, ThreadsAt] at hthreads
    exact accounts_spawn haccounts hthreads
  | spawned hpc => exact haccounts.main_moves .arriving trivial _ _ _
  | arrive barrier hpc => exact haccounts.main_moves .waiting trivial _ barrier _
  | pass hpc =>
    exact haccounts.main_moves (.joining 0) (fun _ hlt => absurd hlt (Nat.not_lt_zero _)) _ _ _
  | join index hpc hexited =>
    simp only [hpc, ThreadsAt] at hthreads
    refine haccounts.main_moves (.joining (index + 1)) (fun other hlt => ?_) _ _ _
    by_cases heq : other = index
    · rw [heq]
      exact hexited
    · apply hthreads other
      have hne : other.val ≠ index.val := fun hval => heq (Fin.ext hval)
      omega
  | joined hpc =>
    simp only [hpc, ThreadsAt] at hthreads
    exact haccounts.main_moves .reporting (fun other => hthreads other other.isLt) _ _ _
  | report hpc =>
    simp only [hpc, ThreadsAt] at hthreads
    exact haccounts.main_moves .testing (fun other => Or.inr (hthreads other)) _ _ _

end MainSteps

section Runs

variable {config : Config} {history : List (State config × Label config)} {state : State config}

/-- The accounts are right in every state of every run. -/
theorem accounts_run (run : Run (Step config) (State.initial config) history state) :
    Accounts (callsOfRepetition (labels history)) state := by
  apply Run.invariant (fun history state => Accounts (callsOfRepetition (labels history)) state)
    accounts_initial _ run
  intro history state label state' _ haccounts hstep
  rw [labels_append, labels_cons, labels_nil, callsOfRepetition_snoc]
  cases hstep with
  | main h => exact accounts_main h haccounts
  | work index h => exact accounts_work h haccounts

theorem share_toNat (config : Config) :
    config.share.toNat = config.iterations.toNat / config.threads.toNat := by
  have hthreads : (config.threads.setWidth 64).toNat = config.threads.toNat := by
    rw [BitVec.toNat_setWidth]
    have hlt := config.threads.isLt
    omega
  rw [Config.share, BitVec.toNat_udiv, hthreads]

/-- A configuration that passes the checks gives every worker the same number of iterations. -/
theorem threads_mul_share (hcheck : checkRun config = .ok ()) :
    config.threads.toNat * config.share.toNat = config.iterations.toNat := by
  have hdivides : config.iterations % config.threads.setWidth 64 = 0 := by
    by_contra hne
    rw [checkRun, if_pos (Or.inr hne)] at hcheck
    cases hcheck
  have hmod := congrArg BitVec.toNat hdivides
  have hthreads : (config.threads.setWidth 64).toNat = config.threads.toNat := by
    rw [BitVec.toNat_setWidth]
    have hlt := config.threads.isLt
    omega
  rw [BitVec.toNat_umod, hthreads] at hmod
  rw [share_toNat]
  exact Nat.mul_div_cancel' (Nat.dvd_of_mod_eq_zero hmod)

section Joined

variable {calls : Calls config}

/-- Once a worker has exited it has made its whole share of the serializations. -/
theorem Accounts.exited (haccounts : Accounts calls state) {index : ThreadIndex config}
    (hexited : (state.worker index).pc = .exited) :
    attempts calls index = config.share.toNat ∧
      contribution (state.worker index) = successes calls index • bytes := by
  have hcounts := haccounts.counts index
  simp only [Counts, hexited] at hcounts
  refine ⟨hcounts.1, ?_⟩
  simp only [contribution, hexited]
  exact hcounts.2

theorem Accounts.calls_length (haccounts : Accounts calls state)
    (hexited : ∀ index, (state.worker index).pc = .exited) :
    calls.length = config.threads.toNat * config.share.toNat := by
  rw [← sum_attempts]
  have hall : ∀ index ∈ Finset.univ, attempts calls index = config.share.toNat :=
    fun index _ => (haccounts.exited (hexited index)).1
  rw [Finset.sum_congr rfl hall, Finset.sum_const, Finset.card_univ, Fintype.card_fin,
    nsmul_eq_mul, Nat.cast_id]

/-- The common checksum of joined workers counts every successful serialization once. -/
theorem Accounts.checksum_joined (haccounts : Accounts calls state)
    (hexited : ∀ index, (state.worker index).pc = .exited)
    (hok : ∀ call ∈ calls, call.2 = true) : state.checksum = calls.length • bytes := by
  have hall : ∀ index ∈ Finset.univ,
      contribution (state.worker index) = attempts calls index • bytes := by
    intro index _
    rw [(haccounts.exited (hexited index)).2, successes_eq_attempts hok]
  rw [haccounts.checksum, Finset.sum_congr rfl hall, Finset.sum_nsmul_assoc, sum_attempts]

end Joined

/-- In every schedule the shared buffer has at most one writer, and once the
workers of a repetition are joined each has made its share of the iterations and
the common checksum has lost none of them. -/
theorem every_encode_accounted (hcheck : checkRun config = .ok ())
    (run : Run (Step config) (State.initial config) history state) :
    (∀ v w, (state.worker v).pc = .serializingShared →
      (state.worker w).pc = .serializingShared → v = w) ∧
    (state.main = .reporting →
      (callsOfRepetition (labels history)).length = config.iterations.toNat ∧
      (∀ index, attempts (callsOfRepetition (labels history)) index =
        config.iterations.toNat / config.threads.toNat) ∧
      ((∀ call ∈ callsOfRepetition (labels history), call.2 = true) →
        state.checksum = config.iterations * bytes)) := by
  have haccounts := accounts_run run
  constructor
  · intro v w hv hw
    exact haccounts.buffer.exclusive (Or.inl hv) (Or.inl hw)
  · intro hmain
    have hexited := haccounts.threads
    simp only [hmain, ThreadsAt] at hexited
    have hlength := (haccounts.calls_length hexited).trans (threads_mul_share hcheck)
    refine ⟨hlength, fun index => ?_, fun hok => ?_⟩
    · rw [← share_toNat]
      exact (haccounts.exited (hexited index)).1
    · rw [haccounts.checksum_joined hexited hok, hlength, nsmul_eq_mul, BitVec.natCast_eq_ofNat,
        BitVec.ofNat_toNat, BitVec.setWidth_eq]

/-- Two workers with one iteration each. -/
def twoEncodes : Config where
  iterations := 2
  repetitions := 1
  warmupIterations := 0
  threads := 2
  mode := ascii "shared_buffer_mutex"

def firstWorker : ThreadIndex twoEncodes := ⟨0, Nat.two_pos⟩

def secondWorker : ThreadIndex twoEncodes := ⟨1, Nat.one_lt_two⟩

/-- The second worker waits for the buffer while the first one writes it, and the first one for
the checksum while the second one adds to it. -/
theorem twoEncodes_run : ∃ history, ∃ state : State twoEncodes,
    Run (Step twoEncodes) (State.initial twoEncodes) history state ∧ state.main = .reporting ∧
      callsOfRepetition (labels history) = [(firstWorker, true), (secondWorker, true)] := by
  have run := Run.snoc Run.nil (Step.main (.warm (State.initial twoEncodes) 0 rfl (by decide)))
  have run := run.snoc (.main (.startRepetition _ rfl (by decide)))
  have run := run.snoc (.main (.spawn _ firstWorker rfl))
  have run := run.snoc (.work firstWorker (.arrive _ _ rfl rfl))
  have run := run.snoc (.main (.spawn _ secondWorker rfl))
  have run := run.snoc (.main (.spawned _ rfl))
  have run := run.snoc (.main (.arrive _ _ rfl rfl))
  have run := run.snoc (.work secondWorker (.arrive _ _ rfl rfl))
  have run := run.snoc (.work secondWorker (.pass _ rfl rfl))
  have run := run.snoc (.work firstWorker (.pass _ rfl rfl))
  have run := run.snoc (.work firstWorker (.enterShared _ rfl (by decide) rfl))
  have run := run.snoc (.work firstWorker (.lockBuffer _ rfl rfl))
  have run := run.snoc (.work secondWorker (.enterShared _ rfl (by decide) rfl))
  have run := run.snoc (.work firstWorker (.serializeShared _ true rfl))
  have run := run.snoc (.work firstWorker (.unlockBuffer _ true rfl))
  have run := run.snoc (.work secondWorker (.lockBuffer _ rfl rfl))
  have run := run.snoc (.work firstWorker (.add _ true rfl))
  have run := run.snoc (.work secondWorker (.serializeShared _ true rfl))
  have run := run.snoc (.work secondWorker (.unlockBuffer _ true rfl))
  have run := run.snoc (.work secondWorker (.add _ true rfl))
  have run := run.snoc (.work firstWorker (.leave _ rfl (by decide)))
  have run := run.snoc (.work secondWorker (.leave _ rfl (by decide)))
  have run := run.snoc (.work secondWorker (.lockChecksum _ rfl rfl))
  have run := run.snoc (.work secondWorker (.loadChecksum _ rfl))
  have run := run.snoc (.work secondWorker (.storeChecksum _ _ rfl))
  have run := run.snoc (.work secondWorker (.unlockChecksum _ rfl))
  have run := run.snoc (.work firstWorker (.lockChecksum _ rfl rfl))
  have run := run.snoc (.work firstWorker (.loadChecksum _ rfl))
  have run := run.snoc (.work firstWorker (.storeChecksum _ _ rfl))
  have run := run.snoc (.work firstWorker (.unlockChecksum _ rfl))
  have run := run.snoc (.main (.pass _ rfl rfl))
  have run := run.snoc (.main (.join _ firstWorker rfl rfl))
  have run := run.snoc (.main (.join _ secondWorker rfl rfl))
  have run := run.snoc (.main (.joined _ rfl))
  exact ⟨_, _, run, rfl, rfl⟩

theorem twoEncodes_accounted : ∃ history, ∃ state : State twoEncodes,
    Run (Step twoEncodes) (State.initial twoEncodes) history state ∧ state.main = .reporting ∧
      attempts (callsOfRepetition (labels history)) firstWorker = 1 ∧
      attempts (callsOfRepetition (labels history)) secondWorker = 1 ∧
      state.checksum = 2 * 49 := by
  obtain ⟨history, state, run, hmain, hcalls⟩ := twoEncodes_run
  obtain ⟨-, hshare, hchecksum⟩ := (every_encode_accounted (by rfl) run).2 hmain
  refine ⟨history, state, run, hmain, hshare firstWorker, hshare secondWorker, ?_⟩
  rw [← bytes_eq]
  refine hchecksum fun call hcall => ?_
  rw [hcalls] at hcall
  rcases List.mem_pair.mp hcall with rfl | rfl
  · rfl
  · rfl

end Runs

end ProtobufKafkaBench.Concurrency

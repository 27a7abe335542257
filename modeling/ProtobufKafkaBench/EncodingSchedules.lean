import ProtobufKafkaBench.Completions
import ProtobufKafkaBench.CountedLoops
import ProtobufKafkaBench.EncodingAccounts

/-!
Every schedule of the concurrency benchmark comes to an end. Each step of a thread
lowers what is left to do, so no schedule is endless; and a thread that waits for
the barrier, a mutex or a join waits for one that can move. Two configurations are
the exception: the largest number of repetitions, which the loop never passes, and
the largest number of threads, for which the barrier expects nobody.
-/
namespace ProtobufKafkaBench.Concurrency

open Completions CountedLoops Mutexes Transitions

section Remaining

/-- The steps a worker still has to take, at most. -/
def Worker.remaining (share : ℕ) (worker : Worker) : ℕ :=
  match worker.pc with
  | .absent => 6 * share + 8
  | .arriving => 6 * share + 7
  | .waiting => 6 * share + 6
  | .testing => 6 * (share - worker.i.toNat) + 5
  | .lockingBuffer => 6 * (share - worker.i.toNat) + 4
  | .serializingShared => 6 * (share - worker.i.toNat) + 3
  | .unlockingBuffer _ | .serializingOwn => 6 * (share - worker.i.toNat) + 2
  | .adding _ => 6 * (share - worker.i.toNat) + 1
  | .lockingChecksum => 4
  | .loadingChecksum => 3
  | .storingChecksum _ => 2
  | .unlockingChecksum => 1
  | .exited => 0

/-- The steps of the main thread up to the end of the repetition, at most. -/
def MainPc.remaining (config : Config) : MainPc → ℕ
  | .warming i => config.warmupIterations.toNat - i.toNat + 2
  | .testing => 1
  | .spawning index => config.threads.toNat - index + config.threads.toNat + 6
  | .arriving => config.threads.toNat + 5
  | .waiting => config.threads.toNat + 4
  | .joining index => config.threads.toNat - index + 3
  | .reporting => 2
  | .finished => 0

/-- The repetitions that have not been started. -/
def MainPc.repetitionsLeft (repetitions repetition : ℕ) : MainPc → ℕ
  | .warming _ | .testing | .finished => repetitions + 1 - repetition
  | .spawning _ | .arriving | .waiting | .joining _ | .reporting => repetitions - repetition

/-- The steps of one repetition, at most. -/
def Config.perRepetition (config : Config) : ℕ :=
  config.threads.toNat * (6 * config.share.toNat + 8) + 2 * config.threads.toNat + 6

variable {config : Config}

def State.remaining (state : State config) : ℕ :=
  state.main.repetitionsLeft config.repetitions.toNat state.repetition.toNat *
      config.perRepetition +
    state.main.remaining config +
    ∑ index, (state.worker index).remaining config.share.toNat

/-- Threads that have not arrived at the barrier. -/
def awaited (worker : Worker) : ℤ :=
  match worker.pc with
  | .absent | .arriving => 1
  | _ => 0

def MainPc.awaited : MainPc → ℤ
  | .spawning _ | .arriving => 1
  | .warming _ | .testing | .waiting | .joining _ | .reporting | .finished => 0

def MainPc.inRepetition : MainPc → Bool
  | .warming _ | .testing | .finished => false
  | .spawning _ | .arriving | .waiting | .joining _ | .reporting => true

/-- Which workers are known to have been created. -/
def SpawnedAt (main : MainPc) (worker : ThreadIndex config → Worker) : Prop :=
  match main with
  | .warming _ | .testing | .finished => True
  | .spawning next => next ≤ config.threads.toNat ∧
      ∀ index : ThreadIndex config, index < next → (worker index).pc ≠ .absent
  | .joining next => next ≤ config.threads.toNat ∧ ∀ index, (worker index).pc ≠ .absent
  | .arriving | .waiting | .reporting => ∀ index, (worker index).pc ≠ .absent

/-- The barrier expects exactly the threads that have not arrived, and the repetition
counter is one ahead of the rows. -/
structure Phases (state : State config) : Prop where
  expected : state.main.inRepetition = true → (state.barrier.expected : ℤ) =
    state.main.awaited + ∑ index, awaited (state.worker index)
  completed : state.main.inRepetition = true →
    (state.barrier.completed = true ↔ state.barrier.expected = 0)
  passed : (∃ index, state.main = .joining index) ∨ state.main = .reporting →
    state.barrier.completed = true
  spawned : SpawnedAt state.main state.worker
  repetition : state.repetition.toNat = state.rows.length + 1
  rows : state.rows.map (fun row => row.repetition.toNat) = List.range' 1 state.rows.length
  started : state.main.inRepetition = true →
    state.repetition.toNat ≤ config.repetitions.toNat
  bounded : state.repetition.toNat ≤ config.repetitions.toNat + 1
  finished : state.main = .finished → config.repetitions.toNat < state.repetition.toNat

end Remaining

section WorkerSteps

variable {config : Config} {calls : Calls config} {state state' : State config}
  {label : Label config} {index : ThreadIndex config}

/-- A step of a worker brings it nearer to its end. -/
theorem WorkerStep.remaining_lt (h : WorkerStep config index state label state')
    (hcounts : ∀ other, Counts config (attempts calls other) (successes calls other)
      (state.worker other)) :
    state'.remaining < state.remaining := by
  have hlower : ∀ next : Worker, state'.worker = Function.update state.worker index next →
      state'.main = state.main → state'.repetition = state.repetition →
      next.remaining config.share.toNat <
        (state.worker index).remaining config.share.toNat →
      state'.remaining < state.remaining := by
    intro next hworker hmain hrepetition hnext
    have hsum := total_update_lt (Worker.remaining config.share.toNat) hnext
    unfold State.remaining
    rw [hworker, hmain, hrepetition]
    omega
  have hnow := hcounts index
  cases h with
  | add ok hpc =>
    refine hlower _ rfl rfl rfl ?_
    simp only [Counts, hpc] at hnow
    have hlt := BitVec.lt_def.mp hnow.2.1
    have hshare := config.share.isLt
    have hone : (1 : BitVec 64).toNat = 1 := rfl
    simp only [Worker.remaining, hpc, BitVec.toNat_add, hone]
    omega
  | _ =>
    refine hlower _ rfl rfl rfl ?_
    simp only [Worker.remaining, *]
    omega

theorem Barrier.arrive_eq_some {barrier after : Barrier} (h : barrier.arrive = some after) :
    barrier.expected = after.expected + 1 ∧ (after.completed = true ↔ after.expected = 0) := by
  obtain ⟨expected, completed⟩ := barrier
  cases expected with
  | zero => cases h
  | succ n =>
    obtain rfl := Option.some.inj h
    exact ⟨rfl, decide_eq_true_iff⟩

/-- No worker's step leads back to before its creation. -/
theorem SpawnedAt.work {main : MainPc} {worker : ThreadIndex config → Worker} {next : Worker}
    (h : SpawnedAt main worker) (hnext : next.pc ≠ .absent) :
    SpawnedAt main (Function.update worker index next) := by
  have hother : ∀ other, (worker other).pc ≠ .absent →
      (Function.update worker index next other).pc ≠ .absent := by
    intro other hpresent
    by_cases heq : other = index
    · rw [heq, Function.update_self]
      exact hnext
    · rwa [Function.update_of_ne heq]
  cases main with
  | warming | testing | finished => trivial
  | spawning k => exact ⟨h.1, fun other hlt => hother other (h.2 other hlt)⟩
  | joining k => exact ⟨h.1, fun other => hother other (h.2 other)⟩
  | arriving | waiting | reporting => exact fun other => hother other (h other)

theorem phases_work (h : WorkerStep config index state label state') (hphases : Phases state) :
    Phases state' := by
  have hstay : ∀ next : Worker, awaited next = awaited (state.worker index) →
      next.pc ≠ .absent → state'.worker = Function.update state.worker index next →
      state'.main = state.main → state'.repetition = state.repetition →
      state'.barrier = state.barrier → state'.rows = state.rows → Phases state' := by
    intro next hawaited hpresent hworker hmain hrepetition hbarrier hrows
    have htotal := total_update_same awaited state.worker index next hawaited
    constructor
    · rw [hmain, hbarrier, hworker, htotal]
      exact hphases.expected
    · rw [hmain, hbarrier]
      exact hphases.completed
    · rw [hmain, hbarrier]
      exact hphases.passed
    · rw [hmain, hworker]
      exact hphases.spawned.work hpresent
    · rw [hrepetition, hrows]
      exact hphases.repetition
    · rw [hrows]
      exact hphases.rows
    · rw [hmain, hrepetition]
      exact hphases.started
    · rw [hrepetition]
      exact hphases.bounded
    · rw [hmain, hrepetition]
      exact hphases.finished
  cases h with
  | arrive barrier hpc harrive =>
    obtain ⟨hexpected, hcompleted⟩ := Barrier.arrive_eq_some harrive
    have htotal := total_update awaited state.worker index
      { state.worker index with pc := .waiting }
    have hnow : awaited (state.worker index) = 1 := by simp [awaited, hpc]
    have hnext : awaited { state.worker index with pc := .waiting } = 0 := rfl
    rw [hnow, hnext] at htotal
    exact {
      expected := by
        intro hmain
        have hbefore := hphases.expected hmain
        change (barrier.expected : ℤ) = state.main.awaited +
          ∑ other, awaited (Function.update state.worker index _ other)
        rw [htotal]
        omega
      completed := fun _ => hcompleted
      passed := by
        intro hmain
        have hinside : state.main.inRepetition = true := by
          rcases hmain with ⟨k, hmain⟩ | hmain
          · exact congrArg MainPc.inRepetition hmain
          · exact congrArg MainPc.inRepetition hmain
        have hzero := (hphases.completed hinside).mp (hphases.passed hmain)
        omega
      spawned := hphases.spawned.work (by simp)
      repetition := hphases.repetition
      rows := hphases.rows
      started := hphases.started
      bounded := hphases.bounded
      finished := hphases.finished }
  | _ => exact hstay _ (by simp [awaited, *]) (by simp) rfl rfl rfl rfl rfl

end WorkerSteps

section MainSteps

variable {config : Config} {calls : Calls config} {state state' : State config}
  {label : Label config}

theorem phases_initial (config : Config) : Phases (State.initial config) where
  expected h := by cases h
  completed h := by cases h
  passed h := by
    rcases h with ⟨index, h⟩ | h <;> cases h
  spawned := trivial
  repetition := rfl
  rows := rfl
  started h := by cases h
  bounded := Nat.succ_le_succ (Nat.zero_le _)
  finished h := by cases h

theorem next_repetition (hrepetitions : config.repetitions ≠ BitVec.allOnes 32)
    (h : state.repetition.toNat ≤ config.repetitions.toNat) :
    (state.repetition + 1).toNat = state.repetition.toNat + 1 := by
  have hlt := succ_lt_of_ne_allOnes hrepetitions
  exact toNat_succ (by omega)

theorem remaining_lt_of_main (main : MainPc) (hworker : state'.worker = state.worker)
    (hmain : state'.main = main)
    (hleft : main.repetitionsLeft config.repetitions.toNat state'.repetition.toNat =
      state.main.repetitionsLeft config.repetitions.toNat state.repetition.toNat)
    (hlower : main.remaining config < state.main.remaining config) :
    state'.remaining < state.remaining := by
  unfold State.remaining
  rw [hworker, hmain, hleft]
  omega

theorem startRepetition_remaining_lt (hpc : state.main = .testing)
    (hrepetition : state.repetition ≤ config.repetitions) :
    state.startRepetition.remaining < state.remaining := by
  have hle := BitVec.le_def.mp hrepetition
  have hfresh : ∑ _index : ThreadIndex config, (6 * config.share.toNat + 8) =
      config.threads.toNat * (6 * config.share.toNat + 8) := by simp
  have hleft : config.repetitions.toNat + 1 - state.repetition.toNat =
      config.repetitions.toNat - state.repetition.toNat + 1 := by omega
  simp only [State.remaining, State.startRepetition, MainPc.repetitionsLeft, hpc, hleft,
    Nat.add_mul, MainPc.remaining, Worker.remaining, hfresh, Config.perRepetition]
  omega

theorem spawn_remaining_lt {index : ThreadIndex config} (hpc : state.main = .spawning index)
    (habsent : (state.worker index).pc = .absent) :
    State.remaining
        { state.setWorker index { pc := .arriving } with main := .spawning (index + 1) } <
      state.remaining := by
  have hlower : Worker.remaining config.share.toNat { pc := .arriving } <
      (state.worker index).remaining config.share.toNat := by simp [Worker.remaining, habsent]
  have hsum := total_update_lt (Worker.remaining config.share.toNat) hlower
  have hindex := index.isLt
  simp only [State.remaining, State.setWorker, MainPc.repetitionsLeft, hpc, MainPc.remaining]
  omega

/-- The main thread's steps bring it nearer to the end as well. -/
theorem MainStep.remaining_lt (h : MainStep config state label state')
    (hrepetitions : config.repetitions ≠ BitVec.allOnes 32) (haccounts : Accounts calls state)
    (hphases : Phases state) : state'.remaining < state.remaining := by
  cases h with
  | warmUp i hpc hi =>
    have hlt := BitVec.lt_def.mp hi
    have hnext : (i + 1).toNat = i.toNat + 1 :=
      toNat_succ (by have := config.warmupIterations.isLt; omega)
    refine remaining_lt_of_main _ rfl rfl (by rw [hpc]; rfl) ?_
    simp only [MainPc.remaining, hpc, hnext]
    omega
  | warm i hpc hi =>
    exact remaining_lt_of_main .testing rfl rfl (by rw [hpc]; rfl)
      (by simp [MainPc.remaining, hpc])
  | startRepetition hpc hrepetition => exact startRepetition_remaining_lt hpc hrepetition
  | finish hpc hrepetition =>
    exact remaining_lt_of_main .finished rfl rfl (by rw [hpc]; rfl)
      (by simp [MainPc.remaining, hpc])
  | spawn index hpc =>
    have hthreads := haccounts.threads
    simp only [hpc, ThreadsAt] at hthreads
    exact spawn_remaining_lt hpc (hthreads index le_rfl)
  | spawned hpc =>
    refine remaining_lt_of_main _ rfl rfl (by rw [hpc]; rfl) ?_
    simp only [MainPc.remaining, hpc]
    omega
  | arrive barrier hpc harrive =>
    exact remaining_lt_of_main _ rfl rfl (by rw [hpc]; rfl) (by simp [MainPc.remaining, hpc])
  | pass hpc hcompleted =>
    exact remaining_lt_of_main _ rfl rfl (by rw [hpc]; rfl) (by simp [MainPc.remaining, hpc])
  | join index hpc hexited =>
    have hindex := index.isLt
    refine remaining_lt_of_main _ rfl rfl (by rw [hpc]; rfl) ?_
    simp only [MainPc.remaining, hpc]
    omega
  | joined hpc =>
    exact remaining_lt_of_main .reporting rfl rfl (by rw [hpc]; rfl)
      (by simp [MainPc.remaining, hpc])
  | report hpc =>
    have hnext := next_repetition hrepetitions (hphases.started (by rw [hpc]; rfl))
    refine remaining_lt_of_main .testing rfl rfl ?_ (by simp [MainPc.remaining, hpc])
    simp only [MainPc.repetitionsLeft, hpc, hnext]
    omega

/-- The main thread moves without touching workers, barrier, counter or rows. -/
theorem Phases.main_moves (hphases : Phases state) (main : MainPc)
    (hinside : main.inRepetition = true → state.main.inRepetition = true)
    (hawaited : main.inRepetition = true → main.awaited = state.main.awaited)
    (hpassed : (∃ index, main = .joining index) ∨ main = .reporting →
      state.barrier.completed = true)
    (hspawned : SpawnedAt main state.worker)
    (hfinished : main = .finished → config.repetitions.toNat < state.repetition.toNat) :
    Phases { state with main } where
  expected h := by
    rw [hawaited h]
    exact hphases.expected (hinside h)
  completed h := hphases.completed (hinside h)
  passed := hpassed
  spawned := hspawned
  repetition := hphases.repetition
  rows := hphases.rows
  started h := hphases.started (hinside h)
  bounded := hphases.bounded
  finished := hfinished

theorem barrier_expected (h : config.threads ≠ BitVec.allOnes 32) :
    (config.threads + 1).toNat = config.threads.toNat + 1 :=
  toNat_succ (succ_lt_of_ne_allOnes h)

theorem phases_startRepetition (hthreads : config.threads ≠ BitVec.allOnes 32)
    (hphases : Phases state) (hrepetition : state.repetition ≤ config.repetitions) :
    Phases state.startRepetition where
  expected _ := by
    have hexpected := barrier_expected hthreads
    simp only [State.startRepetition, MainPc.awaited, awaited, hexpected, Finset.sum_const,
      Finset.card_univ, Fintype.card_fin, nsmul_eq_mul, mul_one]
    omega
  completed _ := by
    have hexpected := barrier_expected hthreads
    simp only [State.startRepetition, hexpected, Bool.false_eq_true, false_iff]
    omega
  passed h := by
    rcases h with ⟨index, h⟩ | h <;> cases h
  spawned := ⟨Nat.zero_le _, fun _ h => absurd h (Nat.not_lt_zero _)⟩
  repetition := hphases.repetition
  rows := hphases.rows
  started _ := BitVec.le_def.mp hrepetition
  bounded := hphases.bounded
  finished h := by cases h

theorem phases_spawn {index : ThreadIndex config} (hphases : Phases state)
    (hpc : state.main = .spawning index) (habsent : (state.worker index).pc = .absent) :
    Phases { state.setWorker index { pc := .arriving } with main := .spawning (index + 1) } where
  expected h := by
    have htotal := total_update_same awaited state.worker index { pc := .arriving }
      (by simp [awaited, habsent])
    have hbefore := hphases.expected (by rw [hpc]; rfl)
    rw [hpc] at hbefore
    change (state.barrier.expected : ℤ) = _ +
      ∑ other, awaited (Function.update state.worker index { pc := .arriving } other)
    rw [htotal]
    exact hbefore
  completed h := hphases.completed (by rw [hpc]; rfl)
  passed h := by
    rcases h with ⟨index, h⟩ | h <;> cases h
  spawned := by
    have hspawned := hphases.spawned
    simp only [hpc, SpawnedAt] at hspawned
    refine ⟨index.isLt, fun other hlt => ?_⟩
    change (Function.update state.worker index { pc := .arriving } other).pc ≠ .absent
    by_cases heq : other = index
    · simp [heq]
    · rw [Function.update_of_ne heq]
      have hne : other.val ≠ index.val := fun hval => heq (Fin.ext hval)
      exact hspawned.2 other (by omega)
  repetition := hphases.repetition
  rows := hphases.rows
  started _ := hphases.started (by rw [hpc]; rfl)
  bounded := hphases.bounded
  finished h := by cases h

theorem phases_arrive {barrier : Barrier} (hphases : Phases state)
    (hpc : state.main = .arriving) (harrive : state.barrier.arrive = some barrier) :
    Phases { state with main := .waiting, barrier } where
  expected _ := by
    obtain ⟨hexpected, -⟩ := Barrier.arrive_eq_some harrive
    have hbefore := hphases.expected (by rw [hpc]; rfl)
    simp only [hpc, MainPc.awaited] at hbefore ⊢
    omega
  completed _ := (Barrier.arrive_eq_some harrive).2
  passed h := by
    rcases h with ⟨index, h⟩ | h <;> cases h
  spawned := by
    have hspawned := hphases.spawned
    simp only [hpc, SpawnedAt] at hspawned
    exact hspawned
  repetition := hphases.repetition
  rows := hphases.rows
  started _ := hphases.started (by rw [hpc]; rfl)
  bounded := hphases.bounded
  finished h := by cases h

theorem phases_report (hrepetitions : config.repetitions ≠ BitVec.allOnes 32)
    (hphases : Phases state) (hpc : state.main = .reporting) :
    Phases { state with
      main := .testing
      repetition := state.repetition + 1
      rows := state.rows ++ [state.row] } := by
  have hstarted := hphases.started (by rw [hpc]; rfl)
  have hnext := next_repetition hrepetitions hstarted
  exact {
    expected := fun h => by cases h
    completed := fun h => by cases h
    passed := fun h => by rcases h with ⟨index, h⟩ | h <;> cases h
    spawned := trivial
    repetition := by rw [hnext, hphases.repetition, List.length_append, List.length_singleton]
    rows := by
      rw [List.map_append, List.map_singleton, hphases.rows, List.length_append,
        List.length_singleton, List.range'_concat, State.row, hphases.repetition, one_mul,
        add_comm 1]
    started := fun h => by cases h
    bounded := by
      change (state.repetition + 1).toNat ≤ _
      omega
    finished := fun h => by cases h }

theorem phases_main (h : MainStep config state label state')
    (hthreads : config.threads ≠ BitVec.allOnes 32 ∨ config.repetitions = 0)
    (hrepetitions : config.repetitions ≠ BitVec.allOnes 32) (haccounts : Accounts calls state)
    (hphases : Phases state) : Phases state' := by
  have hspawned := hphases.spawned
  cases h with
  | warmUp i hpc | warm i hpc =>
    exact hphases.main_moves _ (by simp [MainPc.inRepetition]) (by simp [MainPc.inRepetition])
      (by simp)
      trivial (by simp)
  | startRepetition hpc hrepetition =>
    rcases hthreads with hthreads | hnone
    · exact phases_startRepetition hthreads hphases hrepetition
    · have hle := BitVec.le_def.mp hrepetition
      have hfirst := hphases.repetition
      have hzero : (0 : BitVec 32).toNat = 0 := rfl
      rw [hnone, hzero] at hle
      omega
  | finish hpc hrepetition =>
    exact hphases.main_moves .finished (by simp [MainPc.inRepetition])
      (by simp [MainPc.inRepetition]) (by simp) trivial fun _ =>
        Nat.lt_of_not_le (mt BitVec.le_def.mpr hrepetition)
  | spawn index hpc =>
    have hthreadsAt := haccounts.threads
    simp only [hpc, ThreadsAt] at hthreadsAt
    exact phases_spawn hphases hpc (hthreadsAt index le_rfl)
  | spawned hpc =>
    simp only [hpc, SpawnedAt] at hspawned
    refine hphases.main_moves .arriving (fun _ => by rw [hpc]; rfl) (fun _ => by rw [hpc]; rfl)
      (by simp) (fun index => hspawned.2 index index.isLt) (by simp)
  | arrive barrier hpc harrive => exact phases_arrive hphases hpc harrive
  | pass hpc hcompleted =>
    simp only [hpc, SpawnedAt] at hspawned
    exact hphases.main_moves (.joining 0) (fun _ => by rw [hpc]; rfl) (fun _ => by rw [hpc]; rfl)
      (fun _ => hcompleted) ⟨Nat.zero_le _, hspawned⟩ (by simp)
  | join index hpc hexited =>
    simp only [hpc, SpawnedAt] at hspawned
    exact hphases.main_moves (.joining (index + 1)) (fun _ => by rw [hpc]; rfl)
      (fun _ => by rw [hpc]; rfl) (fun _ => hphases.passed (Or.inl ⟨index, hpc⟩))
      ⟨index.isLt, hspawned.2⟩ (by simp)
  | joined hpc =>
    simp only [hpc, SpawnedAt] at hspawned
    exact hphases.main_moves .reporting (fun _ => by rw [hpc]; rfl) (fun _ => by rw [hpc]; rfl)
      (fun _ => hphases.passed (Or.inl ⟨_, hpc⟩)) hspawned.2 (by simp)
  | report hpc => exact phases_report hrepetitions hphases hpc

end MainSteps

section Waiting

variable {config : Config} {calls : Calls config} {state : State config}

/-- A worker that is not there yet or is there no more. -/
theorem worker_stuck (haccounts : Accounts calls state)
    (hstuck : ∀ label state', ¬ Step config state label state') (index : ThreadIndex config) :
    (state.worker index).pc = .absent ∨ (state.worker index).pc = .exited ∨
      (state.worker index).pc = .arriving ∧ state.barrier.expected = 0 ∨
      (state.worker index).pc = .waiting ∧ state.barrier.completed = false := by
  have hmoves : ∀ other label state', ¬ WorkerStep config other state label state' :=
    fun other label state' h => hstuck label state' (.work other h)
  -- the owner of a mutex is inside its section, where every step is enabled
  have hbuffer : ∀ other, ¬ HoldsBuffer (state.worker other) := by
    intro other hholds
    rcases hholds with hpc | ⟨ok, hpc⟩
    · exact hmoves other _ _ (.serializeShared state true hpc)
    · exact hmoves other _ _ (.unlockBuffer state ok hpc)
  have hsum : ∀ other, ¬ HoldsChecksum (state.worker other) := by
    intro other hholds
    rcases hholds with hpc | ⟨loaded, hpc⟩ | hpc
    · exact hmoves other _ _ (.loadChecksum state hpc)
    · exact hmoves other _ _ (.storeChecksum state loaded hpc)
    · exact hmoves other _ _ (.unlockChecksum state hpc)
  have hmove := hmoves index
  cases hpc : (state.worker index).pc with
  | absent => exact Or.inl rfl
  | exited => exact Or.inr (Or.inl rfl)
  | arriving =>
    refine Or.inr (Or.inr (Or.inl ⟨rfl, ?_⟩))
    cases hexpected : state.barrier.expected with
    | zero => rfl
    | succ n => exact absurd (.arrive state _ hpc (by rw [Barrier.arrive, hexpected])) (hmove _ _)
  | waiting =>
    refine Or.inr (Or.inr (Or.inr ⟨rfl, ?_⟩))
    rw [← Bool.not_eq_true]
    exact fun hcompleted => hmove _ _ (.pass state hpc hcompleted)
  | testing =>
    by_cases hi : (state.worker index).i < config.share
    · by_cases hmode : config.mode = ByteBuffers.ascii "shared_buffer_mutex"
      · exact absurd (.enterShared state hpc hi hmode) (hmove _ _)
      · exact absurd (.enterOwn state hpc hi hmode) (hmove _ _)
    · exact absurd (.leave state hpc hi) (hmove _ _)
  | lockingBuffer =>
    exact absurd (.lockBuffer state hpc (haccounts.buffer.eq_none hbuffer)) (hmove _ _)
  | serializingShared => exact absurd (Or.inl hpc) (hbuffer index)
  | unlockingBuffer ok => exact absurd (Or.inr ⟨ok, hpc⟩) (hbuffer index)
  | serializingOwn => exact absurd (.serializeOwn state true hpc) (hmove _ _)
  | adding ok => exact absurd (.add state ok hpc) (hmove _ _)
  | lockingChecksum =>
    exact absurd (.lockChecksum state hpc (haccounts.sum.eq_none hsum)) (hmove _ _)
  | loadingChecksum => exact absurd (Or.inl hpc) (hsum index)
  | storingChecksum loaded => exact absurd (Or.inr (Or.inl ⟨loaded, hpc⟩)) (hsum index)
  | unlockingChecksum => exact absurd (Or.inr (Or.inr hpc)) (hsum index)

/-- Once the main thread waits at the barrier every thread has been created, so
if nobody can arrive any more the barrier lets all of them pass. -/
theorem waiting_passes (haccounts : Accounts calls state) (hphases : Phases state)
    (hstuck : ∀ label state', ¬ Step config state label state') :
    state.main ≠ .waiting := by
  intro hpc
  have hinside : state.main.inRepetition = true := by rw [hpc]; rfl
  have hexpected := hphases.expected hinside
  have hspawned := hphases.spawned
  simp only [hpc, SpawnedAt] at hspawned
  simp only [hpc, MainPc.awaited, zero_add] at hexpected
  have hpositive : state.barrier.expected ≠ 0 := by
    intro hzero
    exact hstuck _ _ (.main (.pass state hpc ((hphases.completed hinside).mpr hzero)))
  have hsum : ∑ index, awaited (state.worker index) ≠ 0 := by
    rw [← hexpected]
    exact_mod_cast hpositive
  obtain ⟨index, -, hindex⟩ := Finset.exists_ne_zero_of_sum_ne_zero hsum
  rcases worker_stuck haccounts hstuck index with hpc' | hpc' | ⟨hpc', hzero⟩ | ⟨hpc', -⟩
  · exact hspawned index hpc'
  · exact hindex (by simp [awaited, hpc'])
  · exact hpositive hzero
  · exact hindex (by simp [awaited, hpc'])

theorem joining_moves (haccounts : Accounts calls state) (hphases : Phases state)
    (hstuck : ∀ label state', ¬ Step config state label state') (next : ℕ) :
    state.main ≠ .joining next := by
  intro hpc
  have hcompleted := hphases.passed (Or.inl ⟨next, hpc⟩)
  have hzero := (hphases.completed (by rw [hpc]; rfl)).mp hcompleted
  have hexpected := hphases.expected (by rw [hpc]; rfl)
  have hspawned := hphases.spawned
  simp only [hpc, SpawnedAt] at hspawned
  rcases Nat.lt_or_ge next config.threads.toNat with hlt | hge
  · have hexited : (state.worker ⟨next, hlt⟩).pc ≠ .exited := fun hexited =>
      hstuck _ _ (.main (.join state ⟨next, hlt⟩ hpc hexited))
    simp only [hpc, MainPc.awaited, zero_add, hzero, Nat.cast_zero] at hexpected
    have hnonneg : ∀ index ∈ Finset.univ, 0 ≤ awaited (state.worker index) := by
      intro index _
      unfold awaited
      split <;> omega
    have harrived := (Finset.sum_eq_zero_iff_of_nonneg hnonneg).mp hexpected.symm ⟨next, hlt⟩
      (Finset.mem_univ _)
    rcases worker_stuck haccounts hstuck ⟨next, hlt⟩ with hpc' | hpc' | ⟨hpc', -⟩ | ⟨-, hwait⟩
    · exact hspawned.2 _ hpc'
    · exact hexited hpc'
    · simp [awaited, hpc'] at harrived
    · rw [hcompleted] at hwait
      cases hwait
  · obtain rfl : next = config.threads.toNat := le_antisymm hspawned.1 hge
    exact hstuck _ _ (.main (.joined state hpc))

/-- Only the end of the program is stuck. -/
theorem stuck_finished (haccounts : Accounts calls state) (hphases : Phases state)
    (hstuck : ∀ label state', ¬ Step config state label state') : state.main = .finished := by
  cases hpc : state.main with
  | warming i =>
    by_cases hi : i < config.warmupIterations
    · exact absurd (.main (.warmUp state i hpc hi)) (hstuck _ _)
    · exact absurd (.main (.warm state i hpc hi)) (hstuck _ _)
  | testing =>
    by_cases hrepetition : state.repetition ≤ config.repetitions
    · exact absurd (.main (.startRepetition state hpc hrepetition)) (hstuck _ _)
    · exact absurd (.main (.finish state hpc hrepetition)) (hstuck _ _)
  | spawning index =>
    have hspawned := hphases.spawned
    simp only [hpc, SpawnedAt] at hspawned
    rcases Nat.lt_or_ge index config.threads.toNat with hlt | hge
    · exact absurd (.main (.spawn state ⟨index, hlt⟩ hpc)) (hstuck _ _)
    · obtain rfl : index = config.threads.toNat := le_antisymm hspawned.1 hge
      exact absurd (.main (.spawned state hpc)) (hstuck _ _)
  | arriving =>
    have hexpected := hphases.expected (by rw [hpc]; rfl)
    have hnonneg : 0 ≤ ∑ index, awaited (state.worker index) := by
      apply Finset.sum_nonneg
      intro index _
      unfold awaited
      split <;> omega
    simp only [hpc, MainPc.awaited] at hexpected
    obtain ⟨n, hn⟩ := Nat.exists_eq_succ_of_ne_zero (show state.barrier.expected ≠ 0 by omega)
    exact absurd (.main (.arrive state _ hpc (by rw [Barrier.arrive, hn]))) (hstuck _ _)
  | waiting => exact absurd hpc (waiting_passes haccounts hphases hstuck)
  | joining next => exact absurd hpc (joining_moves haccounts hphases hstuck next)
  | reporting => exact absurd (.main (.report state hpc)) (hstuck _ _)
  | finished => rfl

end Waiting

section Schedules

variable {config : Config} {history : List (State config × Label config)} {state : State config}

theorem phases_run (hthreads : config.threads ≠ BitVec.allOnes 32 ∨ config.repetitions = 0)
    (hrepetitions : config.repetitions ≠ BitVec.allOnes 32)
    (run : Run (Step config) (State.initial config) history state) : Phases state := by
  refine Run.invariant (fun _ s => Phases s) (phases_initial config) ?_ run
  intro history s label t hrun hphases hstep
  cases hstep with
  | main h => exact phases_main h hthreads hrepetitions (accounts_run hrun) hphases
  | work index h => exact phases_work h hphases

/-- The loop over the repetitions never passes the largest number of them. -/
theorem largest_repetitions_not_finished (hlargest : config.repetitions = BitVec.allOnes 32)
    (run : Run (Step config) (State.initial config) history state) : state.main ≠ .finished := by
  refine Run.invariant (fun _ s => s.main ≠ .finished) (fun h => by cases h) ?_ run
  intro history s label t _ hmain hstep
  cases hstep with
  | main h =>
    cases h with
    | finish hpc hrepetition =>
      rw [hlargest, BitVec.le_def, BitVec.toNat_allOnes] at hrepetition
      have hlt := s.repetition.isLt
      omega
    | _ => exact nofun
  | work index h =>
    obtain ⟨-, hmain', -⟩ := h.frame
    rwa [hmain']

/-- The first repetition with a barrier that expects nobody: its threads stay in front of it. -/
structure Stalled (state : State config) : Prop where
  main : (∃ i, state.main = .warming i) ∨ state.main = .testing ∨
    (∃ index, state.main = .spawning index) ∨ state.main = .arriving
  repetition : state.repetition = 1
  barrier : state.barrier.expected = 0 ∧ state.barrier.completed = false
  workers : ∀ index, (state.worker index).pc = .absent ∨ (state.worker index).pc = .arriving

theorem stalled_main {state' : State config} {label : Label config}
    (hthreads : config.threads = BitVec.allOnes 32) (hrepetitions : config.repetitions ≠ 0)
    (hstalled : Stalled state) (h : MainStep config state label state') : Stalled state' := by
  obtain ⟨hmain, hfirst, hbarrier, hworkers⟩ := hstalled
  cases h with
  | warmUp i hpc => exact ⟨Or.inl ⟨i + 1, rfl⟩, hfirst, hbarrier, hworkers⟩
  | warm i hpc => exact ⟨Or.inr (Or.inl rfl), hfirst, hbarrier, hworkers⟩
  | startRepetition hpc =>
    refine ⟨Or.inr (Or.inr (Or.inl ⟨0, rfl⟩)), hfirst, ⟨?_, rfl⟩, fun _ => Or.inl rfl⟩
    change (config.threads + 1).toNat = 0
    rw [hthreads]
    rfl
  | finish hpc hrepetition =>
    rw [hfirst, BitVec.le_def] at hrepetition
    have hpositive : config.repetitions.toNat ≠ 0 := fun hzero =>
      hrepetitions (BitVec.eq_of_toNat_eq hzero)
    have hone : (1 : BitVec 32).toNat = 1 := rfl
    omega
  | spawn index hpc =>
    refine ⟨Or.inr (Or.inr (Or.inl ⟨_, rfl⟩)), hfirst, hbarrier, ?_⟩
    apply (Function.forall_update_iff state.worker fun _ (worker : Worker) =>
      worker.pc = .absent ∨ worker.pc = .arriving).mpr
    exact ⟨Or.inr rfl, fun other _ => hworkers other⟩
  | spawned hpc => exact ⟨Or.inr (Or.inr (Or.inr rfl)), hfirst, hbarrier, hworkers⟩
  | arrive barrier hpc harrive =>
    have hexpected := (Barrier.arrive_eq_some harrive).1
    omega
  | pass hpc | join index hpc | joined hpc | report hpc => simp [hpc] at hmain

theorem largest_threads_not_finished (hthreads : config.threads = BitVec.allOnes 32)
    (hrepetitions : config.repetitions ≠ 0)
    (run : Run (Step config) (State.initial config) history state) : state.main ≠ .finished := by
  have hstalled : Stalled state := by
    refine Run.invariant (fun _ s => Stalled s)
      ⟨Or.inl ⟨0, rfl⟩, rfl, ⟨rfl, rfl⟩, fun _ => Or.inl rfl⟩ ?_ run
    intro history s label t _ hstalled hstep
    cases hstep with
    | main h => exact stalled_main hthreads hrepetitions hstalled h
    | work index h =>
      have hworker := hstalled.workers index
      cases h with
      | arrive barrier hpc harrive =>
        have hexpected := (Barrier.arrive_eq_some harrive).1
        have hnobody := hstalled.barrier.1
        omega
      | _ => simp [*] at hworker
  intro hpc
  have hmain := hstalled.main
  simp [hpc] at hmain

/-- The end of the program, with one row for each repetition. -/
def Finished (config : Config) (state : State config) : Prop :=
  state.main = .finished ∧
    state.rows.map (fun row => row.repetition.toNat) = List.range' 1 config.repetitions.toNat

/-- Whatever the schedule, the benchmark ends with a row for each repetition, unless there are
as many repetitions as a 32-bit number can say, or as many threads and something to repeat. This
is of configurations that pass the checks, as no thread starts with others. -/
theorem every_schedule_finishes_iff (config : Config) (_hcheck : checkRun config = .ok ()) :
    Terminates (Step config) (State.initial config) (Finished config) ↔
      config.repetitions ≠ BitVec.allOnes 32 ∧
        (config.threads ≠ BitVec.allOnes 32 ∨ config.repetitions = 0) := by
  constructor
  · intro hterminates
    obtain ⟨history, state, hrun, hfinished, -⟩ := hterminates.canReach Run.nil
    refine ⟨fun hlargest => largest_repetitions_not_finished hlargest hrun hfinished, ?_⟩
    by_cases hnone : config.repetitions = 0
    · exact Or.inr hnone
    · exact Or.inl fun hthreads => largest_threads_not_finished hthreads hnone hrun hfinished
  · intro h
    obtain ⟨hrepetitions, hthreads⟩ := h
    refine terminates_of_measure State.remaining ?_ ?_
    · intro history s label t hrun hstep
      have haccounts := accounts_run hrun
      have hphases := phases_run hthreads hrepetitions hrun
      cases hstep with
      | main h => exact h.remaining_lt hrepetitions haccounts hphases
      | work index h => exact h.remaining_lt haccounts.counts
    · intro history s hrun hstuck
      have hphases := phases_run hthreads hrepetitions hrun
      have hmain := stuck_finished (accounts_run hrun) hphases hstuck
      have hbound := hphases.bounded
      have hpast := hphases.finished hmain
      have hcounter := hphases.repetition
      have hlength : s.rows.length = config.repetitions.toNat := by omega
      refine ⟨hmain, ?_⟩
      rw [hphases.rows, hlength]

/-- Eight threads, a million iterations and ten repetitions. -/
theorem every_schedule_finishes_iff_eight_threads :
    Terminates (Step { threads := 8 }) (State.initial { threads := 8 })
      (Finished { threads := 8 }) :=
  (every_schedule_finishes_iff { threads := 8 } (by rfl)).mpr ⟨by decide, .inl (by decide)⟩

end Schedules

end ProtobufKafkaBench.Concurrency

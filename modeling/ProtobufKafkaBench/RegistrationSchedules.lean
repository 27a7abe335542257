import ProtobufKafkaBench.Completions
import ProtobufKafkaBench.ConcurrentRegistration
import ProtobufKafkaBench.CsvTables
import ProtobufKafkaBench.EncodingSchedules

/-!
What holds of concurrent registration under every schedule: lines are never torn
and there is one for each thread that has finished, no request leaves before all
threads are ready, no subject is registered twice, and every schedule comes to an
end. The barrier expects exactly the threads that have not arrived, unless counting
the main thread in 32 bits has left it with nobody to expect.
-/
namespace ProtobufKafkaBench.ConcurrentRegistration

open ByteBuffers Completions CountedLoops Mutexes RegistryArguments SchemaRegistry Transitions
open Concurrency (Barrier)

variable {setup : Setup} {state state' : State setup} {label : Label setup}
  {index : ThreadIndex setup} {history : List (State setup × Label setup)}

section Places

/-- The thread has not arrived at the barrier yet. -/
def awaited : WorkerPc → ℤ
  | .absent | .preparing | .arriving => 1
  | .waiting | .requesting | .locking _ | .writing _ _ | .exited => 0

def MainPc.awaited : MainPc → ℤ
  | .spawning _ | .arriving => 1
  | .waiting | .joining _ | .returned | .terminated => 0

/-- The barrier has let the thread pass. -/
def released : WorkerPc → Bool
  | .absent | .preparing | .arriving | .waiting => false
  | .requesting | .locking _ | .writing _ _ | .exited => true

/-- The thread has made its request. -/
def sent : WorkerPc → Bool
  | .absent | .preparing | .arriving | .waiting | .requesting => false
  | .locking _ | .writing _ _ | .exited => true

def requester : Label setup → Option (ThreadIndex setup)
  | .requested index _ _ _ => some index
  | .arrived _ | .mainArrived | .locked _ | .other => none

/-- Nothing that happens at the barrier or on the network. -/
def Label.quiet : Label setup → Bool
  | .locked _ | .other => true
  | .arrived _ | .mainArrived | .requested _ _ _ _ => false

/-- The threads whose requests have been made, in order. -/
def requesters (labels : List (Label setup)) : List (ThreadIndex setup) :=
  labels.filterMap requester

theorem requesters_snoc (labels : List (Label setup)) (label : Label setup) :
    requesters (labels ++ [label]) = requesters labels ++ (requester label).toList := by
  cases h : requester label <;> simp [requesters, h]

/-- Which threads exist, and which have been joined. -/
structure Crew (state : State setup) : Prop where
  absent : ∀ next, state.main = .spawning next → next.toNat ≠ 0 →
    ∀ index, next.toNat ≤ repetition index → state.worker index = .absent
  present : ∀ next, state.main = .spawning next →
    ∀ index, repetition index < next.toNat → state.worker index ≠ .absent
  created : (∀ next, state.main ≠ .spawning next) → state.main ≠ .terminated →
    ∀ index, state.worker index ≠ .absent
  next : setup.config.networkRepetitions ≠ BitVec.allOnes 32 →
    ∀ next, state.main = .spawning next →
      1 ≤ next.toNat ∧ next.toNat ≤ setup.config.networkRepetitions.toNat + 1
  joining : ∀ next, state.main = .joining next →
    next ≤ setup.config.networkRepetitions.toNat ∧
      ∀ index : ThreadIndex setup, index < next → state.worker index = .exited
  returned : state.main = .returned → ∀ index, state.worker index = .exited

/-- The barrier and what has gone through it. -/
structure Gate (labels : List (Label setup)) (state : State setup) : Prop where
  arrived : ∀ index, .arrived index ∈ labels ↔ awaited (state.worker index) = 0
  mainArrived : state.main ≠ .terminated → state.main.awaited = 0 → .mainArrived ∈ labels
  expected : state.main ≠ .terminated →
    setup.config.networkRepetitions ≠ BitVec.allOnes 32 →
    (state.barrier.expected : ℤ) = state.main.awaited + ∑ index, awaited (state.worker index)
  overflow : setup.config.networkRepetitions = BitVec.allOnes 32 →
    state.barrier.expected = 0 ∧ state.barrier.completed = false
  completed : state.main ≠ .terminated →
    setup.config.networkRepetitions ≠ BitVec.allOnes 32 →
    (state.barrier.completed = true ↔ state.barrier.expected = 0)
  released : ∀ index, released (state.worker index) = true → state.barrier.completed = true
  passed : state.main = .returned ∨ (∃ next, state.main = .joining next) →
    state.barrier.completed = true
  requested : ∀ index, index ∈ requesters labels ↔ sent (state.worker index) = true
  nodup : (requesters labels).Nodup

end Places

section CrewSteps

theorem crew_initial (setup : Setup) : Crew (State.initial setup) where
  absent _ _ _ _ _ := rfl
  present next hpc index hlt := by
    have hone : (1 : BitVec 32) = next := MainPc.spawning.inj hpc
    have hvalue : (1 : BitVec 32).toNat = 1 := rfl
    rw [← hone, hvalue, repetition] at hlt
    omega
  created h := absurd rfl (h 1)
  next _ next hpc := by
    have hone : (1 : BitVec 32) = next := MainPc.spawning.inj hpc
    have hvalue : (1 : BitVec 32).toNat = 1 := rfl
    rw [← hone, hvalue]
    omega
  joining _ h := by cases h
  returned h := by cases h

/-- A thread that exists stays in existence, and one that has exited does not move. -/
theorem Crew.work (h : Crew state) (index : ThreadIndex setup) {next : WorkerPc}
    (hworker : state'.worker = Function.update state.worker index next)
    (hmain : state'.main = state.main) (hpresent : state.worker index ≠ .absent)
    (hnext : next ≠ .absent) (hlive : state.worker index ≠ .exited) : Crew state' := by
  have hother : ∀ {P : WorkerPc → Prop} (other : ThreadIndex setup), ¬ P (state.worker index) →
      P (state.worker other) → P (Function.update state.worker index next other) := by
    intro P other hout hin
    by_cases heq : other = index
    · exact absurd (heq ▸ hin) hout
    · rwa [Function.update_of_ne heq]
  have hstay : ∀ other : ThreadIndex setup, state.worker other ≠ .absent →
      Function.update state.worker index next other ≠ .absent := by
    intro other hne
    by_cases heq : other = index
    · rw [heq, Function.update_self]
      exact hnext
    · rwa [Function.update_of_ne heq]
  constructor
  · intro n hpc hzero other hle
    rw [hmain] at hpc
    rw [hworker]
    exact hother (P := (· = .absent)) other hpresent (h.absent n hpc hzero other hle)
  · intro n hpc other hlt
    rw [hmain] at hpc
    rw [hworker]
    exact hstay other (h.present n hpc other hlt)
  · intro hspawning hterminated other
    rw [hmain] at hspawning hterminated
    rw [hworker]
    exact hstay other (h.created hspawning hterminated other)
  · intro hn n hpc
    rw [hmain] at hpc
    exact h.next hn n hpc
  · intro n hpc
    rw [hmain] at hpc
    refine ⟨(h.joining n hpc).1, fun other hlt => ?_⟩
    rw [hworker]
    exact hother (P := (· = .exited)) other hlive ((h.joining n hpc).2 other hlt)
  · intro hpc other
    rw [hmain] at hpc
    rw [hworker]
    exact hother (P := (· = .exited)) other hlive (h.returned hpc other)

theorem crew_spawn {next : BitVec 32} (h : Crew state) (hpc : state.main = .spawning next)
    (hindex : next.toNat = repetition index)
    (hnext : next ≤ setup.config.networkRepetitions) :
    Crew { state.setWorker index .preparing with main := .spawning (next + 1) } := by
  have hsucc : (next + 1).toNat = next.toNat + 1 ∨ (next + 1).toNat = 0 := by
    have hlt := next.isLt
    have hone : (1 : BitVec 32).toNat = 1 := rfl
    rw [BitVec.toNat_add, hone]
    omega
  have hother : ∀ other : ThreadIndex setup, repetition other ≠ next.toNat → other ≠ index := by
    intro other hne heq
    rw [heq, hindex] at hne
    exact hne rfl
  constructor
  · intro n hn hzero other hle
    obtain rfl := MainPc.spawning.inj hn
    have hlater : next.toNat < repetition other := by omega
    have hpositive : next.toNat ≠ 0 := by
      rw [hindex, repetition]
      omega
    change Function.update state.worker index .preparing other = .absent
    rw [Function.update_of_ne (hother other (by omega))]
    exact h.absent next hpc hpositive other hlater.le
  · intro n hn other hlt
    obtain rfl := MainPc.spawning.inj hn
    change Function.update state.worker index .preparing other ≠ .absent
    by_cases heq : other = index
    · rw [heq, Function.update_self]
      exact nofun
    · rw [Function.update_of_ne heq]
      have hne : repetition other ≠ repetition index := fun hrep =>
        heq (Fin.ext (Nat.succ_injective hrep))
      exact h.present next hpc other (by omega)
  · intro hspawning
    exact absurd rfl (hspawning _)
  · intro hn n hn'
    obtain rfl := MainPc.spawning.inj hn'
    have hlt := succ_lt_of_ne_allOnes hn
    have hle := BitVec.le_def.mp hnext
    have hone := toNat_succ (show next.toNat + 1 < 2 ^ 32 by omega)
    omega
  · intro n hn
    cases hn
  · intro hn
    cases hn

/-- The main thread moves on without creating a thread. -/
theorem crew_of_main (main : MainPc) (barrier : Barrier)
    (hspawning : ∀ next, main ≠ .spawning next)
    (hcreated : main ≠ .terminated → ∀ index, state.worker index ≠ .absent)
    (hjoining : ∀ next, main = .joining next → next ≤ setup.config.networkRepetitions.toNat ∧
      ∀ index : ThreadIndex setup, index < next → state.worker index = .exited)
    (hreturned : main = .returned → ∀ index, state.worker index = .exited) :
    Crew { state with main, barrier } where
  absent next hpc := absurd hpc (hspawning next)
  present next hpc := absurd hpc (hspawning next)
  created _ := hcreated
  next _ next hpc := absurd hpc (hspawning next)
  joining := hjoining
  returned := hreturned

theorem crew_main (h : Crew state) (hstep : MainStep state label state') : Crew state' := by
  cases hstep with
  | spawn index next hpc hnext hindex => exact crew_spawn h hpc hindex hnext
  | spawned next hpc hnext =>
    refine crew_of_main _ _ nofun (fun _ index => ?_) nofun nofun
    have hlt := Nat.lt_of_not_le (mt BitVec.le_def.mpr hnext)
    exact h.present next hpc index (by have := index.isLt; rw [repetition]; omega)
  | arrive barrier hpc =>
    exact crew_of_main _ _ nofun (fun _ => h.created (by simp [hpc]) (by simp [hpc])) nofun nofun
  | pass hpc =>
    refine crew_of_main _ _ nofun (fun _ => h.created (by simp [hpc]) (by simp [hpc])) ?_ nofun
    intro next hnext
    obtain rfl := MainPc.joining.inj hnext
    exact ⟨Nat.zero_le _, fun _ hlt => absurd hlt (Nat.not_lt_zero _)⟩
  | join index hpc hexited =>
    refine crew_of_main _ _ nofun (fun _ => h.created (by simp [hpc]) (by simp [hpc])) ?_ nofun
    intro next hnext
    obtain rfl := MainPc.joining.inj hnext
    refine ⟨index.isLt, fun other hlt => ?_⟩
    by_cases heq : other = index
    · rw [heq]
      exact hexited
    · have hne : other.val ≠ index.val := fun hval => heq (Fin.ext hval)
      exact (h.joining index hpc).2 other (by omega)
  | joined hpc =>
    exact crew_of_main _ _ nofun (fun _ => h.created (by simp [hpc]) (by simp [hpc])) nofun
      fun _ index => (h.joining _ hpc).2 index index.isLt

theorem crew_work (h : Crew state) (hstep : WorkerStep index state label state') :
    Crew state' := by
  cases hstep with
  | noHandle hpc => exact crew_of_main _ _ nofun (fun hne => absurd rfl hne) nofun nofun
  | prepare hpc | arrive barrier hpc | pass hpc | request reply elapsed rate hpc
  | lock line hpc | write line piece left hpc | unlock line hpc =>
    exact h.work index rfl rfl (by simp [hpc]) nofun (by simp [hpc])

theorem crew_run (run : Run Step (State.initial setup) history state) : Crew state := by
  refine Run.invariant (fun _ s => Crew s) (crew_initial setup) ?_ run
  intro history s label t _ hcrew hstep
  cases hstep with
  | main h => exact crew_main hcrew h
  | work index hlive h => exact crew_work hcrew h

end CrewSteps

section Samples

/-- The owner of the mutex writes what is left of its line and lets go. -/
theorem leaves_run (index : ThreadIndex setup) {line : RequestLine} {left : List Bytes}
    (run : Run Step (State.initial setup) history state) (hlive : state.main ≠ .terminated)
    (hpc : state.worker index = .writing line left) :
    ∃ rest text, labels rest = List.replicate (left.length + 1) Label.other ∧
      Run Step (State.initial setup) (history ++ rest)
        { state.setWorker index .exited with csvMutex := none, text } := by
  induction left generalizing history state with
  | nil =>
    exact ⟨[(state, .other)], state.text, rfl,
      run.snoc (.work index hlive (.unlock state line hpc))⟩
  | cons piece left ih =>
    have hwritten : ({ state.setWorker index (.writing line left) with
        text := state.text ++ piece } : State setup).worker index = .writing line left :=
      Function.update_self _ _ _
    obtain ⟨rest, text, hlabels, hrun⟩ :=
      ih (run.snoc (.work index hlive (.write state line piece left hpc))) hlive hwritten
    refine ⟨(state, .other) :: rest, text, ?_, ?_⟩
    · rw [labels_cons, hlabels]
      rfl
    · rw [List.append_assoc] at hrun
      simpa [State.setWorker] using hrun

/-- Two repetitions under the default arguments. -/
def twice : Setup where
  config := { networkRepetitions := 2 }
  subject := ascii "benchmark"
  schema := ascii "syntax"

def firstThread : ThreadIndex twice := ⟨0, by decide⟩

def secondThread : ThreadIndex twice := ⟨1, by decide⟩

/-- The second thread arrives first, is answered first and takes the mutex first. -/
def secondFirst (reply reply' : Option HttpResult) : List (Label twice) :=
  [.other, .other, .other, .other, .other, .mainArrived, .arrived secondThread,
    .arrived firstThread, .other, .requested secondThread reply [] [], .other,
    .requested firstThread reply' [] [], .locked secondThread] ++
    List.replicate 18 .other ++ [.locked firstThread]

/-- The first thread has just taken the mutex that the second one has given back. -/
theorem secondFirst_run (reply reply' : Option HttpResult) :
    ∃ history state, Run Step (State.initial twice) history state ∧
      labels history = secondFirst reply reply' ∧ state.main = .waiting ∧
      state.barrier.completed = true ∧ state.worker secondThread = .exited ∧
      state.worker firstThread = .writing (row firstThread [] [] reply')
        (row firstThread [] [] reply').pieces := by
  have run := Run.nil.snoc
    (Step.main (.spawn (State.initial twice) firstThread 1 rfl (by decide) rfl))
  have run := run.snoc (.work firstThread nofun (.prepare _ rfl))
  have run := run.snoc (.main (.spawn _ secondThread 2 rfl (by decide) rfl))
  have run := run.snoc (.main (.spawned _ 3 rfl (by decide)))
  have run := run.snoc (.work secondThread nofun (.prepare _ rfl))
  have run := run.snoc (.main (.arrive _ ⟨2, false⟩ rfl rfl))
  have run := run.snoc (.work secondThread nofun (.arrive _ ⟨1, false⟩ rfl rfl))
  have run := run.snoc (.work firstThread nofun (.arrive _ ⟨0, true⟩ rfl rfl))
  have run := run.snoc (.work secondThread nofun (.pass _ rfl rfl))
  have run := run.snoc (.work secondThread nofun (.request _ reply [] [] rfl))
  have run := run.snoc (.work firstThread nofun (.pass _ rfl rfl))
  have run := run.snoc (.work firstThread nofun (.request _ reply' [] [] rfl))
  have run := run.snoc (.work secondThread nofun (.lock _ _ rfl rfl))
  obtain ⟨rest, text, hlabels, run⟩ := leaves_run secondThread run nofun rfl
  have run := run.snoc (.work firstThread nofun (.lock _ _ rfl rfl))
  refine ⟨_, _, run, ?_, rfl, rfl, rfl, rfl⟩
  simp only [labels_append, hlabels]
  rfl

/-- From there to the return of the function. -/
theorem twice_run (reply reply' : Option HttpResult) :
    ∃ history state, Run Step (State.initial twice) history state ∧ state.main = .returned ∧
      lockers (labels history) = [secondThread, firstThread] := by
  obtain ⟨history, state, run, hlabels, hmain, hcompleted, hsecond, hfirst⟩ :=
    secondFirst_run reply reply'
  have hlive : state.main ≠ .terminated := by simp [hmain]
  obtain ⟨rest, text, hrest, run⟩ := leaves_run firstThread run hlive hfirst
  have run := run.snoc (.main (.pass _ hmain hcompleted))
  have run := run.snoc (.main (.join _ firstThread rfl rfl))
  have run := run.snoc (.main (.join _ secondThread rfl hsecond))
  have run := run.snoc (.main (.joined _ rfl))
  refine ⟨_, _, run, rfl, ?_⟩
  simp only [labels_append, hlabels, hrest]
  rfl

end Samples

section Rows

theorem sheet_run (run : Run Step (State.initial setup) history state) :
    ∃ done started, Sheet (labels history) done started state := by
  refine Run.invariant (fun h s => ∃ done started, Sheet (labels h) done started s)
    ⟨[], [], sheet_initial setup⟩ ?_ run
  intro history s label t hrun hsheet hstep
  obtain ⟨done, started, hsheet⟩ := hsheet
  have hcrew := crew_run hrun
  rw [labels_append, labels_cons, labels_nil]
  refine sheet_step hsheet (fun index next hpc hindex => ?_) hstep
  exact hcrew.absent next hpc (by rw [hindex, repetition]; omega) index hindex.le

theorem Sheet.free_of_exited {labels : List (Label setup)} {done : List (Entry setup)}
    {started : Bytes} (h : Sheet labels done started state)
    (hexited : ∀ index, state.worker index = .exited) : state.csvMutex = none := by
  refine h.guards.eq_none fun index hwriting => ?_
  obtain ⟨line, left, hpc⟩ := hwriting
  rw [hexited index] at hpc
  cases hpc

/-- Under every schedule the table consists of whole lines, one for each thread that has
finished and about that thread's own request, and of the beginning of at most one more
line, whose thread holds the mutex. When the function returns, every thread has its line. -/
theorem registration_lines_whole (run : Run Step (State.initial setup) history state) :
    ∃ (done : List (Entry setup)) (started : Bytes), state.text = textOf done ++ started ∧
      (done.map Prod.fst).Nodup ∧
      (∀ entry ∈ done, Requested (labels history) entry.1 entry.2) ∧
      (started ≠ [] → ∃ index line left, state.csvMutex = some index ∧
        state.worker index = .writing line left ∧ started <+: line.text ∧
        index ∉ done.map Prod.fst) ∧
      (state.main = .returned → started = [] ∧ ∀ index, index ∈ done.map Prod.fst) := by
  obtain ⟨done, started, hsheet⟩ := sheet_run run
  refine ⟨done, started, hsheet.text, hsheet.nodup, hsheet.done_lines, ?_, ?_⟩
  · intro hstarted
    obtain ⟨index, howner⟩ := Option.ne_none_iff_exists'.mp (mt hsheet.free hstarted)
    obtain ⟨line, left, hpc⟩ := (hsheet.guards index).mpr howner
    obtain ⟨written, hpieces, hprefix⟩ := hsheet.owner index line left hpc
    refine ⟨index, line, left, howner, hpc, ?_, ?_⟩
    · rw [RequestLine.text, hpieces, List.flatten_append, ← hprefix]
      exact List.prefix_append _ _
    · rw [hsheet.exited index, hpc]
      simp
  · intro hreturned
    have hexited := (crew_run run).returned hreturned
    exact ⟨hsheet.free (hsheet.free_of_exited hexited),
      fun index => (hsheet.exited index).mpr (hexited index)⟩

theorem registration_lines_whole_twice :
    ∃ (history : List (State twice × Label twice)) (state : State twice)
      (done : List (Entry twice)), Run Step (State.initial twice) history state ∧
        state.text = textOf done ∧ (done.map Prod.fst).Nodup ∧
        firstThread ∈ done.map Prod.fst ∧ secondThread ∈ done.map Prod.fst ∧
        ∀ entry ∈ done, Requested (labels history) entry.1 entry.2 := by
  obtain ⟨history, state, run, hreturned, -⟩ := twice_run none none
  obtain ⟨done, started, htext, hnodup, hlines, -, hall⟩ := registration_lines_whole run
  obtain ⟨hstarted, hall⟩ := hall hreturned
  rw [hstarted, List.append_nil] at htext
  exact ⟨history, state, done, run, htext, hnodup, hall firstThread, hall secondThread, hlines⟩

end Rows

section GateSteps

theorem overflow_iff (setup : Setup) :
    setup.config.networkRepetitions = BitVec.allOnes 32 ∧
        (setup.config.networkRepetitions + 1).toNat = 0 ∨
      setup.config.networkRepetitions ≠ BitVec.allOnes 32 ∧
        (setup.config.networkRepetitions + 1).toNat =
          setup.config.networkRepetitions.toNat + 1 := by
  by_cases h : setup.config.networkRepetitions = BitVec.allOnes 32
  · refine Or.inl ⟨h, ?_⟩
    rw [h]
    rfl
  · exact Or.inr ⟨h, toNat_succ (succ_lt_of_ne_allOnes h)⟩

theorem gate_initial (setup : Setup) : Gate [] (State.initial setup) where
  arrived index := iff_of_false nofun (show ¬ (1 : ℤ) = 0 by decide)
  mainArrived _ h := absurd h (show ¬ (1 : ℤ) = 0 by decide)
  expected _ hn := by
    rcases overflow_iff setup with ⟨h, -⟩ | ⟨-, hexpected⟩
    · exact absurd h hn
    · change (((setup.config.networkRepetitions + 1).toNat : ℕ) : ℤ) = 1 + ∑ _index, 1
      rw [hexpected, Finset.sum_const, Finset.card_univ, Fintype.card_fin, nsmul_eq_mul, mul_one]
      omega
  overflow hn := by
    rcases overflow_iff setup with ⟨-, hexpected⟩ | ⟨h, -⟩
    · exact ⟨hexpected, rfl⟩
    · exact absurd hn h
  completed _ hn := by
    rcases overflow_iff setup with ⟨h, -⟩ | ⟨-, hexpected⟩
    · exact absurd h hn
    · change (false = true) ↔ (setup.config.networkRepetitions + 1).toNat = 0
      simp only [hexpected, Bool.false_eq_true, false_iff]
      omega
  released _ h := by cases h
  passed h := by rcases h with h | ⟨next, h⟩ <;> cases h
  requested _ := iff_of_false nofun nofun
  nodup := List.nodup_nil

theorem requester_of_quiet (h : label.quiet = true) : requester label = none := by
  cases label with
  | requested => cases h
  | _ => rfl

/-- Threads move within their side of the barrier, with nothing to record. -/
theorem Gate.quiet {labels : List (Label setup)} (h : Gate labels state)
    (hquiet : label.quiet = true) (hbarrier : state'.barrier = state.barrier)
    (hawaited : ∀ index, awaited (state'.worker index) = awaited (state.worker index))
    (hreleased : ∀ index, ConcurrentRegistration.released (state'.worker index) = true →
      state.barrier.completed = true)
    (hsent : ∀ index, sent (state'.worker index) = sent (state.worker index))
    (hmain : state'.main ≠ .terminated →
      state.main ≠ .terminated ∧ state'.main.awaited = state.main.awaited)
    (hpassed : state'.main = .returned ∨ (∃ next, state'.main = .joining next) →
      state.barrier.completed = true) : Gate (labels ++ [label]) state' where
  arrived index := by
    have hother : label ≠ .arrived index := by
      rintro rfl
      cases hquiet
    rw [hawaited index, ← h.arrived index, List.mem_append, List.mem_singleton]
    exact or_iff_left hother.symm
  mainArrived hlive hpc := by
    rw [(hmain hlive).2] at hpc
    exact List.mem_append_left _ (h.mainArrived (hmain hlive).1 hpc)
  expected hlive hn := by
    rw [hbarrier, (hmain hlive).2, Finset.sum_congr rfl fun index _ => hawaited index]
    exact h.expected (hmain hlive).1 hn
  overflow hn := by
    rw [hbarrier]
    exact h.overflow hn
  completed hlive hn := by
    rw [hbarrier]
    exact h.completed (hmain hlive).1 hn
  released index hpc := by
    rw [hbarrier]
    exact hreleased index hpc
  passed hpc := by
    rw [hbarrier]
    exact hpassed hpc
  requested index := by
    rw [requesters_snoc, requester_of_quiet hquiet, hsent index, ← h.requested index]
    simp
  nodup := by
    rw [requesters_snoc, requester_of_quiet hquiet]
    simpa using h.nodup

theorem same_after_update {α : Type*} (part : WorkerPc → α)
    {worker : ThreadIndex setup → WorkerPc} {next : WorkerPc}
    (h : part next = part (worker index)) (other : ThreadIndex setup) :
    part (Function.update worker index next other) = part (worker other) := by
  by_cases heq : other = index
  · rw [heq, Function.update_self, h]
  · rw [Function.update_of_ne heq]

theorem Gate.work {labels : List (Label setup)} (h : Gate labels state)
    (hquiet : label.quiet = true) (index : ThreadIndex setup) {next : WorkerPc}
    (hworker : state'.worker = Function.update state.worker index next)
    (hmain : state'.main = state.main) (hlive : state.main ≠ .terminated)
    (hbarrier : state'.barrier = state.barrier)
    (hawaited : awaited next = awaited (state.worker index))
    (hreleased : ConcurrentRegistration.released next = true → state.barrier.completed = true)
    (hsent : sent next = sent (state.worker index)) : Gate (labels ++ [label]) state' := by
  refine h.quiet hquiet hbarrier ?_ ?_ ?_ (fun _ => ⟨hlive, by rw [hmain]⟩)
    (by rw [hmain]; exact h.passed)
  · rw [hworker]
    exact same_after_update awaited hawaited
  · rw [hworker]
    apply (Function.forall_update_iff state.worker fun _ (pc : WorkerPc) =>
      ConcurrentRegistration.released pc = true → state.barrier.completed = true).mpr
    exact ⟨hreleased, fun other _ => h.released other⟩
  · rw [hworker]
    exact same_after_update sent hsent

/-- The main thread moves within its side of the barrier. -/
theorem Gate.main_moves {labels : List (Label setup)} (h : Gate labels state) (main : MainPc)
    (hmain : main ≠ .terminated →
      state.main ≠ .terminated ∧ main.awaited = state.main.awaited)
    (hpassed : main = .returned ∨ (∃ next, main = .joining next) →
      state.barrier.completed = true) : Gate (labels ++ [.other]) { state with main } :=
  h.quiet rfl rfl (fun _ => rfl) h.released (fun _ => rfl) hmain hpassed

theorem Gate.not_overflow {labels : List (Label setup)} (h : Gate labels state)
    {barrier : Barrier} (harrive : state.barrier.arrive = some barrier) :
    setup.config.networkRepetitions ≠ BitVec.allOnes 32 := by
  intro hn
  have hexpected := (Concurrency.Barrier.arrive_eq_some harrive).1
  have hnobody := (h.overflow hn).1
  omega

/-- A barrier at which somebody still arrives has let nobody pass. -/
theorem Gate.not_completed {labels : List (Label setup)} (h : Gate labels state)
    (hlive : state.main ≠ .terminated) {barrier : Barrier}
    (harrive : state.barrier.arrive = some barrier) : state.barrier.completed ≠ true := by
  intro hcompleted
  have hexpected := (Concurrency.Barrier.arrive_eq_some harrive).1
  have hzero := (h.completed hlive (h.not_overflow harrive)).mp hcompleted
  omega

theorem gate_arrive {labels : List (Label setup)} (h : Gate labels state)
    (hlive : state.main ≠ .terminated) {barrier : Barrier}
    (hpc : state.worker index = .arriving) (harrive : state.barrier.arrive = some barrier) :
    Gate (labels ++ [.arrived index]) { state.setWorker index .waiting with barrier } where
  arrived := by
    apply (Function.forall_update_iff state.worker fun other (pc : WorkerPc) =>
      Label.arrived other ∈ labels ++ [Label.arrived index] ↔ awaited pc = 0).mpr
    refine ⟨iff_of_true (List.mem_append_right _ List.mem_cons_self) rfl, fun other hne => ?_⟩
    rw [← h.arrived other, List.mem_append, List.mem_singleton]
    exact or_iff_left fun heq => hne (Label.arrived.inj heq)
  mainArrived hmain hzero := List.mem_append_left _ (h.mainArrived hmain hzero)
  expected _ hn := by
    have hexpected := (Concurrency.Barrier.arrive_eq_some harrive).1
    have hbefore := h.expected hlive hn
    have htotal := total_update awaited state.worker index .waiting
    have hnow : awaited .arriving = 1 := rfl
    have hnext : awaited .waiting = 0 := rfl
    rw [hpc, hnow, hnext] at htotal
    change (barrier.expected : ℤ) = state.main.awaited +
      ∑ other, awaited (Function.update state.worker index .waiting other)
    rw [htotal]
    omega
  overflow hn := absurd hn (h.not_overflow harrive)
  completed _ _ := (Concurrency.Barrier.arrive_eq_some harrive).2
  released := by
    apply (Function.forall_update_iff state.worker fun _ (pc : WorkerPc) =>
      released pc = true → barrier.completed = true).mpr
    exact ⟨nofun, fun other _ hother => absurd (h.released other hother)
      (h.not_completed hlive harrive)⟩
  passed hmain := absurd (h.passed hmain) (h.not_completed hlive harrive)
  requested := by
    rw [requesters_snoc]
    apply (Function.forall_update_iff state.worker fun other (pc : WorkerPc) =>
      other ∈ requesters labels ++ [] ↔ sent pc = true).mpr
    have hindex := h.requested index
    rw [hpc] at hindex
    exact ⟨by simpa [sent] using hindex, fun other _ => by simpa using h.requested other⟩
  nodup := by
    rw [requesters_snoc]
    simpa [requester] using h.nodup

theorem gate_mainArrive {labels : List (Label setup)} (h : Gate labels state) {barrier : Barrier}
    (hpc : state.main = .arriving) (harrive : state.barrier.arrive = some barrier) :
    Gate (labels ++ [.mainArrived]) { state with main := .waiting, barrier } where
  arrived index := by
    rw [← h.arrived index]
    simp
  mainArrived _ _ := List.mem_append_right _ List.mem_cons_self
  expected _ hn := by
    have hexpected := (Concurrency.Barrier.arrive_eq_some harrive).1
    have hbefore := h.expected (by simp [hpc]) hn
    rw [hpc] at hbefore
    simp only [MainPc.awaited] at hbefore ⊢
    omega
  overflow hn := absurd hn (h.not_overflow harrive)
  completed _ _ := (Concurrency.Barrier.arrive_eq_some harrive).2
  released index hreleased :=
    absurd (h.released index hreleased) (h.not_completed (by simp [hpc]) harrive)
  passed hmain := by rcases hmain with hmain | ⟨next, hmain⟩ <;> cases hmain
  requested := by
    rw [requesters_snoc]
    simpa [requester] using h.requested
  nodup := by
    rw [requesters_snoc]
    simpa [requester] using h.nodup

theorem gate_request {labels : List (Label setup)} (h : Gate labels state)
    (hpc : state.worker index = .requesting) (reply : Option HttpResult) (elapsed rate : Bytes) :
    Gate (labels ++ [.requested index reply elapsed rate])
      (state.setWorker index (.locking (row index elapsed rate reply))) where
  arrived := by
    apply (Function.forall_update_iff state.worker fun other (pc : WorkerPc) =>
      Label.arrived other ∈ labels ++ [Label.requested index reply elapsed rate] ↔
        awaited pc = 0).mpr
    have hindex := h.arrived index
    rw [hpc] at hindex
    exact ⟨by simpa [awaited] using hindex, fun other _ => by simpa using h.arrived other⟩
  mainArrived hmain hzero := List.mem_append_left _ (h.mainArrived hmain hzero)
  expected hlive hn := by
    have htotal := total_update_same awaited state.worker index
      (.locking (row index elapsed rate reply)) (by rw [hpc]; rfl)
    change (state.barrier.expected : ℤ) = state.main.awaited +
      ∑ other, awaited (Function.update state.worker index _ other)
    rw [htotal]
    exact h.expected hlive hn
  overflow := h.overflow
  completed := h.completed
  released := by
    apply (Function.forall_update_iff state.worker fun _ (pc : WorkerPc) =>
      ConcurrentRegistration.released pc = true → state.barrier.completed = true).mpr
    exact ⟨fun _ => h.released index (by rw [hpc]; rfl), fun other _ => h.released other⟩
  passed := h.passed
  requested := by
    rw [requesters_snoc]
    apply (Function.forall_update_iff state.worker fun other (pc : WorkerPc) =>
      other ∈ requesters labels ++ [index] ↔ sent pc = true).mpr
    refine ⟨iff_of_true (List.mem_append_right _ List.mem_cons_self) rfl, fun other hne => ?_⟩
    rw [← h.requested other, List.mem_append, List.mem_singleton]
    exact or_iff_left hne
  nodup := by
    have hfresh : index ∉ requesters labels := by
      rw [h.requested index, hpc]
      exact nofun
    rw [requesters_snoc]
    refine List.nodup_append.mpr ⟨h.nodup, List.nodup_singleton _, fun a ha b hb heq => ?_⟩
    obtain rfl := List.mem_singleton.mp hb
    exact hfresh (heq ▸ ha)

theorem gate_spawn {labels : List (Label setup)} {next : BitVec 32} (h : Gate labels state)
    (hpc : state.main = .spawning next) (habsent : state.worker index = .absent) :
    Gate (labels ++ [.other])
      { state.setWorker index .preparing with main := .spawning (next + 1) } := by
  refine h.quiet rfl rfl (same_after_update awaited (by rw [habsent]; rfl)) ?_
    (same_after_update sent (by rw [habsent]; rfl)) (fun _ => ?_) (by simp)
  · apply (Function.forall_update_iff state.worker fun _ (pc : WorkerPc) =>
      ConcurrentRegistration.released pc = true → state.barrier.completed = true).mpr
    exact ⟨nofun, fun other _ => h.released other⟩
  · rw [hpc]
    exact ⟨nofun, rfl⟩

theorem gate_step {labels : List (Label setup)} (h : Gate labels state) (hcrew : Crew state)
    (hstep : Step state label state') : Gate (labels ++ [label]) state' := by
  cases hstep with
  | main hmain =>
    cases hmain with
    | spawn index next hpc hnext hindex =>
      exact gate_spawn h hpc
        (hcrew.absent next hpc (by rw [hindex, repetition]; omega) index hindex.le)
    | spawned next hpc =>
      exact h.main_moves _ (fun _ => by rw [hpc]; exact ⟨nofun, rfl⟩) (by simp)
    | arrive barrier hpc harrive => exact gate_mainArrive h hpc harrive
    | pass hpc hcompleted =>
      exact h.main_moves _ (fun _ => by rw [hpc]; exact ⟨nofun, rfl⟩) fun _ => hcompleted
    | join index hpc | joined hpc =>
      exact h.main_moves _ (fun _ => by rw [hpc]; exact ⟨nofun, rfl⟩) fun _ =>
        h.passed (Or.inr ⟨_, hpc⟩)
  | work index hlive hwork =>
    cases hwork with
    | noHandle hpc => exact h.main_moves _ (fun hne => absurd rfl hne) (by simp)
    | prepare hpc =>
      exact h.work rfl index rfl rfl hlive rfl (by rw [hpc]; rfl) nofun (by rw [hpc]; rfl)
    | arrive barrier hpc harrive => exact gate_arrive h hlive hpc harrive
    | pass hpc hcompleted =>
      exact h.work rfl index rfl rfl hlive rfl (by rw [hpc]; rfl) (fun _ => hcompleted)
        (by rw [hpc]; rfl)
    | request reply elapsed rate hpc => exact gate_request h hpc reply elapsed rate
    | lock line hpc | write line piece left hpc | unlock line hpc =>
      exact h.work rfl index rfl rfl hlive rfl (by rw [hpc]; rfl)
        (fun _ => h.released index (by rw [hpc]; rfl)) (by rw [hpc]; rfl)

theorem gate_run (run : Run Step (State.initial setup) history state) :
    Gate (labels history) state := by
  refine Run.invariant (fun h s => Gate (labels h) s) (gate_initial setup) ?_ run
  intro history s label t hrun hgate hstep
  rw [labels_append, labels_cons, labels_nil]
  exact gate_step hgate (crew_run hrun) hstep

end GateSteps

section Requests

theorem requesters_append (before after : List (Label setup)) :
    requesters (before ++ after) = requesters before ++ requesters after :=
  List.filterMap_append

theorem awaited_nonneg (pc : WorkerPc) : 0 ≤ awaited pc := by
  cases pc <;> simp [awaited]

theorem MainPc.awaited_nonneg (pc : MainPc) : 0 ≤ pc.awaited := by
  cases pc <;> simp [MainPc.awaited]

/-- Behind the barrier everybody has arrived. -/
theorem Gate.everybody {labels : List (Label setup)} (h : Gate labels state)
    (hlive : state.main ≠ .terminated) (hcompleted : state.barrier.completed = true) :
    Label.mainArrived ∈ labels ∧ ∀ index, Label.arrived index ∈ labels := by
  have hn : setup.config.networkRepetitions ≠ BitVec.allOnes 32 := by
    intro hn
    rw [(h.overflow hn).2] at hcompleted
    cases hcompleted
  have hexpected := h.expected hlive hn
  rw [(h.completed hlive hn).mp hcompleted] at hexpected
  have hnonneg : ∀ index ∈ Finset.univ, 0 ≤ awaited (state.worker index) :=
    fun index _ => awaited_nonneg _
  have hsum := Finset.sum_nonneg hnonneg
  have hmain := state.main.awaited_nonneg
  refine ⟨h.mainArrived hlive (by omega), fun index => (h.arrived index).mpr ?_⟩
  exact (Finset.sum_eq_zero_iff_of_nonneg hnonneg).mp (by omega) index (Finset.mem_univ index)

/-- The subject is what tells the requests of two threads apart. -/
theorem request_url_injective :
    Function.Injective fun index : ThreadIndex setup => (request index).url := by
  intro first second h
  have hsubject : numberedSubject setup.subject (ascii "_concurrent_") (repetition first) =
      numberedSubject setup.subject (ascii "_concurrent_") (repetition second) :=
    List.append_cancel_left (List.append_cancel_right h)
  have hdigits := CsvTables.decimalDigits_injective (List.append_cancel_left hsubject)
  exact Fin.ext (Nat.succ_injective hdigits)

/-- The barrier releases the requests: before the first of them every thread has arrived, the
main thread included. And no thread registers twice, nor two threads the same subject. -/
theorem requests_after_barrier (run : Run Step (State.initial setup) history state) :
    (∀ before after index reply elapsed rate,
      labels history = before ++ Label.requested index reply elapsed rate :: after →
        Label.mainArrived ∈ before ∧ ∀ other, Label.arrived other ∈ before) ∧
    ((requesters (labels history)).map fun index => (request index).url).Nodup := by
  refine ⟨fun before after index reply elapsed rate hlabels => ?_,
    (gate_run run).nodup.map request_url_injective⟩
  obtain ⟨earlier, s, u, rfl, hrun, hstep⟩ := run.split_labels hlabels
  have hgate := gate_run hrun
  cases hstep with
  | main h => cases h
  | work other hlive h =>
    cases h with
    | request _ _ _ hpc => exact hgate.everybody hlive (hgate.released index (by rw [hpc]; rfl))

theorem requests_after_barrier_twice :
    ∃ history : List (State twice × Label twice), labels history = secondFirst none none ∧
      Label.mainArrived ∈ (labels history).take 9 ∧
      Label.arrived firstThread ∈ (labels history).take 9 ∧
      Label.requested secondThread none [] [] ∈ (labels history).drop 9 ∧
      ((requesters (labels history)).map fun index => (request index).url).Nodup := by
  obtain ⟨history, state, run, hlabels, -⟩ := secondFirst_run none none
  obtain ⟨hbarrier, hnodup⟩ := requests_after_barrier run
  have hsplit : labels history = (secondFirst none none).take 9 ++
      .requested secondThread none [] [] :: (secondFirst none none).drop 10 := by
    rw [hlabels]
    rfl
  obtain ⟨hmain, hothers⟩ := hbarrier _ _ _ _ _ _ hsplit
  refine ⟨history, hlabels, ?_, ?_, ?_, hnodup⟩
  · rwa [hlabels]
  · rw [hlabels]
    exact hothers firstThread
  · rw [hlabels]
    exact List.mem_cons_self

end Requests

section Endings

/-- The steps a thread still has to take, at most. -/
def WorkerPc.remaining : WorkerPc → ℕ
  | .absent => 24
  | .preparing => 23
  | .arriving => 22
  | .waiting => 21
  | .requesting => 20
  | .locking _ => 19
  | .writing _ left => left.length + 1
  | .exited => 0

/-- The steps of the main thread, at most. -/
def MainPc.remaining (repetitions : ℕ) : MainPc → ℕ
  | .spawning next => repetitions + 1 - next.toNat + repetitions + 5
  | .arriving => repetitions + 4
  | .waiting => repetitions + 3
  | .joining index => repetitions - index + 2
  | .returned | .terminated => 0

def State.remaining (state : State setup) : ℕ :=
  state.main.remaining setup.config.networkRepetitions.toNat +
    ∑ index, (state.worker index).remaining

theorem MainStep.remaining_lt (h : MainStep state label state') (hcrew : Crew state)
    (hn : setup.config.networkRepetitions ≠ BitVec.allOnes 32) :
    state'.remaining < state.remaining := by
  have hbound := succ_lt_of_ne_allOnes hn
  cases h with
  | spawn index next hpc hnext hindex =>
    have hle := BitVec.le_def.mp hnext
    have hsucc := toNat_succ (show next.toNat + 1 < 2 ^ 32 by omega)
    have habsent := hcrew.absent next hpc (by rw [hindex, repetition]; omega) index hindex.le
    have hlower : WorkerPc.preparing.remaining < (state.worker index).remaining := by
      rw [habsent]
      exact Nat.lt_succ_self 23
    have hsum := total_update_lt WorkerPc.remaining hlower
    simp only [State.remaining, State.setWorker, hpc, MainPc.remaining, hsucc]
    omega
  | spawned next hpc | pass hpc | joined hpc | arrive barrier hpc =>
    simp only [State.remaining, hpc, MainPc.remaining]
    omega
  | join index hpc hexited =>
    have hindex := index.isLt
    simp only [State.remaining, hpc, MainPc.remaining]
    omega

theorem WorkerStep.remaining_lt (h : WorkerStep index state label state') (hcrew : Crew state)
    (hlive : state.main ≠ .terminated) : state'.remaining < state.remaining := by
  have hlower : ∀ next : WorkerPc, state'.worker = Function.update state.worker index next →
      state'.main = state.main → next.remaining < (state.worker index).remaining →
      state'.remaining < state.remaining := by
    intro next hworker hmain hnext
    have hsum := total_update_lt WorkerPc.remaining hnext
    unfold State.remaining
    rw [hworker, hmain]
    omega
  cases h with
  | noHandle hpc =>
    -- here it is the main thread that has nothing left to do
    have hpositive : 0 < state.main.remaining setup.config.networkRepetitions.toNat := by
      cases hmain : state.main with
      | returned =>
        have hexited := hcrew.returned hmain index
        rw [hpc] at hexited
        cases hexited
      | terminated => exact absurd hmain hlive
      | spawning | arriving | waiting | joining => exact Nat.succ_pos _
    change 0 + ∑ other, (state.worker other).remaining < state.remaining
    unfold State.remaining
    omega
  | lock line hpc hfree =>
    refine hlower _ rfl rfl ?_
    rw [hpc]
    exact Nat.lt_succ_self 18
  | _ =>
    refine hlower _ rfl rfl ?_
    simp only [WorkerPc.remaining, *]
    simp

theorem Step.remaining_lt (h : Step state label state') (hcrew : Crew state)
    (hn : setup.config.networkRepetitions ≠ BitVec.allOnes 32) :
    state'.remaining < state.remaining := by
  cases h with
  | main h => exact h.remaining_lt hcrew hn
  | work index hlive h => exact h.remaining_lt hcrew hlive

/-- Nothing can happen any more, unless a thread is refused its handle. -/
def Stuck (state : State setup) : Prop :=
  ∀ label state', Step state label state' → state'.main = .terminated

/-- A worker that is not there yet, or no more, or that waits for the others. -/
theorem worker_stuck {labels : List (Label setup)} {done : List (Entry setup)} {started : Bytes}
    (hsheet : Sheet labels done started state) (hlive : state.main ≠ .terminated)
    (hstuck : Stuck state) (index : ThreadIndex setup) :
    state.worker index = .absent ∨ state.worker index = .exited ∨
      state.worker index = .arriving ∧ state.barrier.expected = 0 ∨
      state.worker index = .waiting ∧ state.barrier.completed = false := by
  have hmoves : ∀ other label state', WorkerStep other state label state' →
      state'.main ≠ state.main := by
    intro other label state' h hmain
    exact hlive (hmain.symm.trans (hstuck label state' (.work other hlive h)))
  -- the owner of the mutex can write its next piece or let go
  have hwriting : ∀ other, ¬ Writing (state.worker other) := by
    intro other h
    obtain ⟨line, left, hpc⟩ := h
    cases left with
    | nil => exact hmoves other _ _ (.unlock state line hpc) rfl
    | cons piece left => exact hmoves other _ _ (.write state line piece left hpc) rfl
  have hmove := hmoves index
  cases hpc : state.worker index with
  | absent => exact Or.inl rfl
  | preparing => exact (hmove _ _ (.prepare state hpc) rfl).elim
  | arriving =>
    refine Or.inr (Or.inr (Or.inl ⟨rfl, ?_⟩))
    cases hexpected : state.barrier.expected with
    | zero => rfl
    | succ n =>
      exact (hmove _ _ (.arrive state _ hpc (by rw [Barrier.arrive, hexpected])) rfl).elim
  | waiting =>
    refine Or.inr (Or.inr (Or.inr ⟨rfl, ?_⟩))
    rw [← Bool.not_eq_true]
    exact fun hcompleted => hmove _ _ (.pass state hpc hcompleted) rfl
  | requesting => exact (hmove _ _ (.request state none [] [] hpc) rfl).elim
  | locking line =>
    exact (hmove _ _ (.lock state line hpc (hsheet.guards.eq_none hwriting)) rfl).elim
  | writing line left => exact absurd ⟨line, left, hpc⟩ (hwriting index)
  | exited => exact Or.inr (Or.inl rfl)

/-- With all threads created and the main thread arrived, the barrier has opened. -/
theorem completed_of_stuck {labels : List (Label setup)} {done : List (Entry setup)}
    {started : Bytes} (hsheet : Sheet labels done started state) (hgate : Gate labels state)
    (hcrew : Crew state) (hn : setup.config.networkRepetitions ≠ BitVec.allOnes 32)
    (hstuck : Stuck state)
    (hspawning : ∀ next, state.main ≠ .spawning next) (hlive : state.main ≠ .terminated)
    (hmain : state.main.awaited = 0) : state.barrier.completed = true := by
  rw [hgate.completed hlive hn]
  by_contra hpositive
  have hexpected := hgate.expected hlive hn
  rw [hmain, zero_add] at hexpected
  have hsum : ∑ index, awaited (state.worker index) ≠ 0 := by
    rw [← hexpected]
    exact_mod_cast hpositive
  obtain ⟨index, -, hindex⟩ := Finset.exists_ne_zero_of_sum_ne_zero hsum
  rcases worker_stuck hsheet hlive hstuck index with hpc | hpc | ⟨-, hzero⟩ | ⟨hpc, -⟩
  · exact hcrew.created hspawning hlive index hpc
  · exact hindex (by rw [hpc]; rfl)
  · exact hpositive hzero
  · exact hindex (by rw [hpc]; rfl)

theorem exited_of_stuck {labels : List (Label setup)} {done : List (Entry setup)}
    {started : Bytes} (hsheet : Sheet labels done started state) (hgate : Gate labels state)
    (hcrew : Crew state) (hstuck : Stuck state)
    (hspawning : ∀ next, state.main ≠ .spawning next) (hlive : state.main ≠ .terminated)
    (hcompleted : state.barrier.completed = true) (index : ThreadIndex setup) :
    state.worker index = .exited := by
  rcases worker_stuck hsheet hlive hstuck index with hpc | hpc | ⟨hpc, -⟩ | ⟨-, hwait⟩
  · exact absurd hpc (hcrew.created hspawning hlive index)
  · exact hpc
  · have harrived := (hgate.arrived index).mp ((hgate.everybody hlive hcompleted).2 index)
    rw [hpc] at harrived
    cases harrived
  · rw [hcompleted] at hwait
    cases hwait

theorem stuck_ended {labels : List (Label setup)} {done : List (Entry setup)}
    {started : Bytes} (hsheet : Sheet labels done started state) (hgate : Gate labels state)
    (hcrew : Crew state) (hn : setup.config.networkRepetitions ≠ BitVec.allOnes 32)
    (hstuck : Stuck state) :
    state.main = .returned ∨ state.main = .terminated := by
  cases hpc : state.main with
  | returned => exact Or.inl rfl
  | terminated => exact Or.inr rfl
  | spawning next =>
    by_cases hnext : next ≤ setup.config.networkRepetitions
    · obtain ⟨hfirst, -⟩ := hcrew.next hn next hpc
      have hle := BitVec.le_def.mp hnext
      have hindex : next.toNat - 1 < setup.config.networkRepetitions.toNat := by omega
      have hrepetition : next.toNat =
          repetition (⟨next.toNat - 1, hindex⟩ : ThreadIndex setup) := by
        change next.toNat = next.toNat - 1 + 1
        omega
      cases hstuck _ _ (.main (.spawn state _ next hpc hnext hrepetition))
    · cases hstuck _ _ (.main (.spawned state next hpc hnext))
  | arriving =>
    have hexpected := hgate.expected (by simp [hpc]) hn
    have hsum : 0 ≤ ∑ index, awaited (state.worker index) :=
      Finset.sum_nonneg fun index _ => awaited_nonneg _
    simp only [hpc, MainPc.awaited] at hexpected
    cases hbarrier : state.barrier.expected with
    | zero =>
      rw [hbarrier] at hexpected
      omega
    | succ n =>
      cases hstuck _ _ (.main (.arrive state _ hpc (by rw [Barrier.arrive, hbarrier])))
  | waiting =>
    have hcompleted := completed_of_stuck hsheet hgate hcrew hn hstuck (by simp [hpc])
      (by simp [hpc]) (by rw [hpc]; rfl)
    cases hstuck _ _ (.main (.pass state hpc hcompleted))
  | joining next =>
    have hcompleted := hgate.passed (Or.inr ⟨next, hpc⟩)
    have hexited := exited_of_stuck hsheet hgate hcrew hstuck (by simp [hpc])
      (by simp [hpc]) hcompleted
    rcases Nat.lt_or_ge next setup.config.networkRepetitions.toNat with hlt | hge
    · cases hstuck _ _ (.main (.join state ⟨next, hlt⟩ hpc (hexited _)))
    · obtain rfl := le_antisymm (hcrew.joining next hpc).1 hge
      cases hstuck _ _ (.main (.joined state hpc))

/-- A step in which no thread is refused its handle. -/
def Supplied (state : State setup) (label : Label setup) (state' : State setup) : Prop :=
  Step state label state' ∧ state'.main ≠ .terminated

theorem supplied_live (run : Run Supplied (State.initial setup) history state) :
    state.main ≠ .terminated := by
  cases run with
  | nil => exact nofun
  | snoc _ hstep => exact hstep.2

/-- With a handle for each thread the registration can be brought to its return. -/
theorem exists_returned (setup : Setup)
    (hn : setup.config.networkRepetitions ≠ BitVec.allOnes 32) :
    ∃ history state, Run Step (State.initial setup) history state ∧ state.main = .returned := by
  have hreach : CanReach Supplied (fun state : State setup => state.main = .returned)
      (State.initial setup) := by
    refine canReach_of_measure State.remaining (fun history state hsupplied => ?_) Run.nil
    have hlive := supplied_live hsupplied
    have run := hsupplied.mono fun _ _ _ h => h.1
    by_contra hnone
    obtain ⟨hrunning, hnone⟩ := not_or.mp hnone
    obtain ⟨done, started, hsheet⟩ := sheet_run run
    have hstuck : Stuck state := by
      intro label state' hstep
      by_contra hlive'
      exact hnone ⟨label, state', ⟨hstep, hlive'⟩, hstep.remaining_lt (crew_run run) hn⟩
    exact (stuck_ended hsheet (gate_run run) (crew_run run) hn hstuck).elim hrunning hlive
  obtain ⟨history, state, run, hreturned⟩ := hreach
  exact ⟨history, state, run.mono fun _ _ _ h => h.1, hreturned⟩

/-- The table has got one whole line for each repetition, about that thread's own request
and in the order in which the threads have taken the mutex. -/
def AllLines (labels : List (Label setup)) (state : State setup) : Prop :=
  ∃ done : List (Entry setup), state.text = textOf done ∧
    done.map Prod.fst = lockers labels ∧
    (lockers labels).Perm (List.finRange setup.config.networkRepetitions.toNat) ∧
    ∀ entry ∈ done, Requested labels entry.1 entry.2

theorem allLines_of_returned (run : Run Step (State.initial setup) history state)
    (hreturned : state.main = .returned) : AllLines (labels history) state := by
  obtain ⟨done, started, hsheet⟩ := sheet_run run
  have hexited := (crew_run run).returned hreturned
  have hfree := hsheet.free_of_exited hexited
  have horder : lockers (labels history) = done.map Prod.fst := by
    rw [hsheet.order, hfree, Option.toList_none, List.append_nil]
  refine ⟨done, ?_, horder.symm, ?_, hsheet.done_lines⟩
  · rw [hsheet.text, hsheet.free hfree, List.append_nil]
  · rw [horder]
    refine (List.perm_ext_iff_of_nodup hsheet.nodup (List.nodup_finRange _)).mpr fun index => ?_
    exact iff_of_true ((hsheet.exited index).mpr (hexited index)) (List.mem_finRange index)

/-- Whatever the schedule and the network, the registration comes to an end: it returns with
all its lines, unless a thread that cannot have a handle has ended the program. -/
theorem registration_terminates (hn : setup.config.networkRepetitions ≠ BitVec.allOnes 32) :
    (Terminates Step (State.initial setup) fun state =>
      state.main = .returned ∨ state.main = .terminated) ∧
    ∀ history state, Run Step (State.initial setup) history state → state.main = .returned →
      AllLines (labels history) state := by
  refine ⟨terminates_of_measure State.remaining ?_ ?_, fun _ _ => allLines_of_returned⟩
  · exact fun _ _ _ _ run hstep => hstep.remaining_lt (crew_run run) hn
  · intro history s run hstuck
    obtain ⟨done, started, hsheet⟩ := sheet_run run
    exact stuck_ended hsheet (gate_run run) (crew_run run) hn
      fun label state' hstep => absurd hstep (hstuck label state')

theorem registration_terminates_twice :
    ∃ (history : List (State twice × Label twice)) (state : State twice)
      (done : List (Entry twice)), Run Step (State.initial twice) history state ∧
        state.main = .returned ∧ state.text = textOf done ∧
        done.map Prod.fst = [secondThread, firstThread] ∧
        ∀ entry ∈ done, Requested (labels history) entry.1 entry.2 := by
  obtain ⟨history, state, run, hreturned, hlockers⟩ := twice_run none none
  have hcount : twice.config.networkRepetitions ≠ BitVec.allOnes 32 := by decide
  obtain ⟨done, htext, horder, -, hlines⟩ :=
    (registration_terminates hcount).2 history state run hreturned
  exact ⟨history, state, done, run, hreturned, htext, horder.trans hlockers, hlines⟩

end Endings

end ProtobufKafkaBench.ConcurrentRegistration

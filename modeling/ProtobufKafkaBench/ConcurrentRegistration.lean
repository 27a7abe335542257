import ProtobufKafkaBench.ConcurrentEncoding
import ProtobufKafkaBench.RegistryRequests

/-!
Concurrent registration: one thread for each repetition, all released by a barrier,
each registering the schema under a subject of its own and then writing one line of
the table under a mutex. The line goes out piece by piece, each piece a step of its
own. An exception in a thread, outside the request, ends the whole program.
-/
namespace ProtobufKafkaBench.ConcurrentRegistration

open ByteBuffers Mutexes RegistryArguments SchemaRegistry Transitions
open Concurrency (Barrier)

section Data

/-- The arguments of `run_concurrent_registration`. -/
structure Setup where
  config : Config
  subject : Bytes
  schema : Bytes

variable (setup : Setup)

/-- A worker thread, which knows its `repetition`. -/
abbrev ThreadIndex := Fin setup.config.networkRepetitions.toNat

variable {setup}

def repetition (index : ThreadIndex setup) : ℕ := index.val + 1

def request (index : ThreadIndex setup) : HttpRequest :=
  registrationRequest (httpOptions setup.config) setup.config.registryUrl
    (numberedSubject setup.subject (ascii "_concurrent_") (repetition index)) setup.schema

def row (index : ThreadIndex setup) (elapsed rate : Bytes) (reply : Option HttpResult) :
    RequestLine :=
  controlRow (ascii "concurrent_registration") (ascii "schema_registry_concurrent_register")
    (repetition index) elapsed rate reply

/-- `absent` is a thread that has not been created yet. A thread at `writing` holds
the mutex and still has these pieces of its line to write. -/
inductive WorkerPc
  | absent
  | preparing
  | arriving
  | waiting
  | requesting
  | locking (line : RequestLine)
  | writing (line : RequestLine) (left : List Bytes)
  | exited

inductive MainPc
  | spawning (repetition : BitVec 32)
  | arriving
  | waiting
  | joining (index : ℕ)
  | returned
  | terminated

end Data

section Threads

variable (setup : Setup)

/-- `text` is what the table has got since the function was called. -/
structure State where
  main : MainPc
  barrier : Barrier
  csvMutex : Mutex (ThreadIndex setup)
  worker : ThreadIndex setup → WorkerPc
  text : Bytes

inductive Label
  | arrived (index : ThreadIndex setup)
  | mainArrived
  | requested (index : ThreadIndex setup) (reply : Option HttpResult) (elapsed rate : Bytes)
  | locked (index : ThreadIndex setup)
  | other

def State.initial : State setup where
  main := .spawning 1
  barrier := ⟨(setup.config.networkRepetitions + 1).toNat, false⟩
  csvMutex := none
  worker _ := .absent
  text := []

variable {setup}

def State.setWorker (state : State setup) (index : ThreadIndex setup) (pc : WorkerPc) :
    State setup :=
  { state with worker := Function.update state.worker index pc }

inductive MainStep : State setup → Label setup → State setup → Prop
  | spawn (state : State setup) (index : ThreadIndex setup) (next : BitVec 32)
      (hpc : state.main = .spawning next)
      (hnext : next ≤ setup.config.networkRepetitions)
      (hindex : next.toNat = repetition index) :
      MainStep state .other { state.setWorker index .preparing with main := .spawning (next + 1) }
  | spawned (state : State setup) (next : BitVec 32) (hpc : state.main = .spawning next)
      (hnext : ¬ next ≤ setup.config.networkRepetitions) :
      MainStep state .other { state with main := .arriving }
  | arrive (state : State setup) (barrier : Barrier) (hpc : state.main = .arriving)
      (harrive : state.barrier.arrive = some barrier) :
      MainStep state .mainArrived { state with main := .waiting, barrier }
  | pass (state : State setup) (hpc : state.main = .waiting)
      (hcompleted : state.barrier.completed = true) :
      MainStep state .other { state with main := .joining 0 }
  | join (state : State setup) (index : ThreadIndex setup) (hpc : state.main = .joining index)
      (hexited : state.worker index = .exited) :
      MainStep state .other { state with main := .joining (index + 1) }
  | joined (state : State setup)
      (hpc : state.main = .joining setup.config.networkRepetitions.toNat) :
      MainStep state .other { state with main := .returned }

/-- The steps of one worker. Whether a handle can be had, what comes back and how
long it takes are arbitrary; after the line, mutex, handle and header are released. -/
inductive WorkerStep (index : ThreadIndex setup) : State setup → Label setup → State setup → Prop
  | prepare (state : State setup) (hpc : state.worker index = .preparing) :
      WorkerStep index state .other (state.setWorker index .arriving)
  | noHandle (state : State setup) (hpc : state.worker index = .preparing) :
      WorkerStep index state .other { state with main := .terminated }
  | arrive (state : State setup) (barrier : Barrier) (hpc : state.worker index = .arriving)
      (harrive : state.barrier.arrive = some barrier) :
      WorkerStep index state (.arrived index) { state.setWorker index .waiting with barrier }
  | pass (state : State setup) (hpc : state.worker index = .waiting)
      (hcompleted : state.barrier.completed = true) :
      WorkerStep index state .other (state.setWorker index .requesting)
  | request (state : State setup) (reply : Option HttpResult) (elapsed rate : Bytes)
      (hpc : state.worker index = .requesting) :
      WorkerStep index state (.requested index reply elapsed rate)
        (state.setWorker index (.locking (row index elapsed rate reply)))
  | lock (state : State setup) (line : RequestLine) (hpc : state.worker index = .locking line)
      (hfree : state.csvMutex = none) :
      WorkerStep index state (.locked index)
        { state.setWorker index (.writing line line.pieces) with csvMutex := some index }
  | write (state : State setup) (line : RequestLine) (piece : Bytes) (left : List Bytes)
      (hpc : state.worker index = .writing line (piece :: left)) :
      WorkerStep index state .other
        { state.setWorker index (.writing line left) with text := state.text ++ piece }
  | unlock (state : State setup) (line : RequestLine)
      (hpc : state.worker index = .writing line []) :
      WorkerStep index state .other
        { state.setWorker index .exited with csvMutex := none }

/-- Any thread may take the next step, as long as the program runs. -/
inductive Step (state : State setup) (label : Label setup) (state' : State setup) : Prop
  | main (h : MainStep state label state')
  | work (index : ThreadIndex setup) (hlive : state.main ≠ .terminated)
      (h : WorkerStep index state label state')

end Threads

section Lines

variable {setup : Setup} {state state' : State setup} {label : Label setup}
  {index : ThreadIndex setup} {history : List (State setup × Label setup)}

/-- Inside the section of `csv_mutex`. -/
def Writing (pc : WorkerPc) : Prop := ∃ line left, pc = .writing line left

/-- The request of this worker has been answered, or has failed, with this line. -/
def Requested (labels : List (Label setup)) (index : ThreadIndex setup) (line : RequestLine) :
    Prop :=
  ∃ reply elapsed rate, .requested index reply elapsed rate ∈ labels ∧
    line = row index elapsed rate reply

theorem Requested.mono {labels : List (Label setup)} {line : RequestLine}
    (h : Requested labels index line) (rest : List (Label setup)) :
    Requested (labels ++ rest) index line := by
  obtain ⟨reply, elapsed, rate, hmem, hline⟩ := h
  exact ⟨reply, elapsed, rate, List.mem_append_left rest hmem, hline⟩

/-- The line that a worker is about to write or is writing. -/
def lineOf : WorkerPc → Option RequestLine
  | .locking line | .writing line _ => some line
  | .absent | .preparing | .arriving | .waiting | .requesting | .exited => none

abbrev Entry (setup : Setup) := ThreadIndex setup × RequestLine

def textOf (entries : List (Entry setup)) : Bytes :=
  (entries.map fun entry => entry.2.text).flatten

def locker : Label setup → Option (ThreadIndex setup)
  | .locked index => some index
  | .arrived _ | .mainArrived | .requested _ _ _ _ | .other => none

/-- The threads in the order in which they have taken the mutex. -/
def lockers (labels : List (Label setup)) : List (ThreadIndex setup) := labels.filterMap locker

theorem lockers_append (before after : List (Label setup)) :
    lockers (before ++ after) = lockers before ++ lockers after :=
  List.filterMap_append

/-- `text` holds the lines `done` and then `started`, the part of its line that the
owner of the mutex has written. -/
structure Sheet (labels : List (Label setup)) (done : List (Entry setup)) (started : Bytes)
    (state : State setup) : Prop where
  text : state.text = textOf done ++ started
  guards : Guards state.csvMutex Writing state.worker
  free : state.csvMutex = none → started = []
  owner : ∀ index line left, state.worker index = .writing line left →
    ∃ written, line.pieces = written ++ left ∧ started = written.flatten
  lines : ∀ index line, lineOf (state.worker index) = some line → Requested labels index line
  done_lines : ∀ entry ∈ done, Requested labels entry.1 entry.2
  nodup : (done.map Prod.fst).Nodup
  exited : ∀ index, index ∈ done.map Prod.fst ↔ state.worker index = .exited
  order : lockers labels = done.map Prod.fst ++ state.csvMutex.toList

theorem sheet_initial (setup : Setup) : Sheet [] [] [] (State.initial setup) where
  text := rfl
  guards := Guards.free fun _ h => by
    obtain ⟨line, left, h⟩ := h
    cases h
  free _ := rfl
  owner _ _ _ h := by cases h
  lines _ _ h := by cases h
  done_lines _ h := by cases h
  nodup := List.nodup_nil
  exited _ := by simp [State.initial]
  order := rfl

/-- A worker outside the section moves to another place outside. -/
theorem Sheet.move {labels : List (Label setup)} {done : List (Entry setup)} {started : Bytes}
    (h : Sheet labels done started state) (index : ThreadIndex setup) (next : WorkerPc)
    (hbefore : ¬ Writing (state.worker index))
    (hafter : ¬ Writing next) (hlive : state.worker index ≠ .exited) (hlive' : next ≠ .exited)
    (rest : List (Label setup)) (hrest : lockers rest = []) (barrier : Barrier) (main : MainPc)
    (hline : ∀ line, lineOf next = some line → Requested (labels ++ rest) index line) :
    Sheet (labels ++ rest) done started { state.setWorker index next with barrier, main } where
  text := h.text
  guards := h.guards.move (iff_of_false hafter hbefore)
  free := h.free
  owner := by
    apply (Function.forall_update_iff state.worker fun _ (pc : WorkerPc) =>
      ∀ line left, pc = .writing line left →
        ∃ written, line.pieces = written ++ left ∧ started = written.flatten).mpr
    exact ⟨fun line left hpc => absurd ⟨line, left, hpc⟩ hafter, fun other _ => h.owner other⟩
  lines := by
    apply (Function.forall_update_iff state.worker fun other (pc : WorkerPc) =>
      ∀ line, lineOf pc = some line → Requested (labels ++ rest) other line).mpr
    exact ⟨hline, fun other _ line hpc => (h.lines other line hpc).mono rest⟩
  done_lines entry hentry := (h.done_lines entry hentry).mono rest
  nodup := h.nodup
  exited := by
    apply (Function.forall_update_iff state.worker fun other (pc : WorkerPc) =>
      other ∈ done.map Prod.fst ↔ pc = .exited).mpr
    exact ⟨iff_of_false (fun hmem => hlive ((h.exited index).mp hmem)) hlive',
      fun other _ => h.exited other⟩
  order := by
    rw [lockers_append, hrest, List.append_nil]
    exact h.order

theorem Sheet.main_moves {labels : List (Label setup)} {done : List (Entry setup)}
    {started : Bytes} (h : Sheet labels done started state) (rest : List (Label setup))
    (hrest : lockers rest = []) (barrier : Barrier) (main : MainPc) :
    Sheet (labels ++ rest) done started { state with barrier, main } where
  text := h.text
  guards := h.guards
  free := h.free
  owner := h.owner
  lines index line hline := (h.lines index line hline).mono rest
  done_lines entry hentry := (h.done_lines entry hentry).mono rest
  nodup := h.nodup
  exited := h.exited
  order := by
    rw [lockers_append, hrest, List.append_nil]
    exact h.order

theorem Sheet.lock {labels : List (Label setup)} {done : List (Entry setup)} {started : Bytes}
    {line : RequestLine} (h : Sheet labels done started state)
    (hpc : state.worker index = .locking line) (hfree : state.csvMutex = none) :
    Sheet (labels ++ [.locked index]) done []
      { state.setWorker index (.writing line line.pieces) with csvMutex := some index } where
  text := by rw [← h.free hfree]; exact h.text
  guards := by
    have hguards := h.guards
    rw [hfree] at hguards
    exact hguards.lock ⟨line, _, rfl⟩
  free := nofun
  owner := by
    apply (Function.forall_update_iff state.worker fun _ (pc : WorkerPc) =>
      ∀ line left, pc = .writing line left →
        ∃ written, line.pieces = written ++ left ∧ ([] : Bytes) = written.flatten).mpr
    refine ⟨fun line left hpc => ?_, fun other _ line left hother => ?_⟩
    · obtain ⟨rfl, rfl⟩ := WorkerPc.writing.inj hpc
      exact ⟨[], rfl, rfl⟩
    · have howner := (h.guards other).mp ⟨line, left, hother⟩
      rw [hfree] at howner
      cases howner
  lines := by
    apply (Function.forall_update_iff state.worker fun other (pc : WorkerPc) =>
      ∀ line, lineOf pc = some line → Requested (labels ++ [Label.locked index]) other line).mpr
    refine ⟨fun line' hline => (h.lines index line' ?_).mono _,
      fun other _ line hpc => (h.lines other line hpc).mono _⟩
    rw [hpc]
    exact hline
  done_lines entry hentry := (h.done_lines entry hentry).mono _
  nodup := h.nodup
  exited := by
    apply (Function.forall_update_iff state.worker fun other (pc : WorkerPc) =>
      other ∈ done.map Prod.fst ↔ pc = .exited).mpr
    refine ⟨?_, fun other _ => h.exited other⟩
    have hexited := h.exited index
    rw [hpc] at hexited
    simpa using hexited
  order := by
    have horder := h.order
    rw [hfree, Option.toList_none, List.append_nil] at horder
    rw [lockers_append, horder]
    rfl

/-- The owner's next piece joins what it has written already. -/
theorem Sheet.write {labels : List (Label setup)} {done : List (Entry setup)} {started : Bytes}
    {line : RequestLine} {piece : Bytes} {left : List Bytes} (h : Sheet labels done started state)
    (hpc : state.worker index = .writing line (piece :: left)) :
    Sheet (labels ++ [.other]) done (started ++ piece)
      { state.setWorker index (.writing line left) with text := state.text ++ piece } where
  text := by
    change state.text ++ piece = _
    rw [h.text, List.append_assoc]
  guards := h.guards.move (iff_of_true ⟨line, _, rfl⟩ ⟨line, _, hpc⟩)
  free hfree := by
    have howner := (h.guards index).mp ⟨line, _, hpc⟩
    change state.csvMutex = none at hfree
    rw [hfree] at howner
    cases howner
  owner := by
    apply (Function.forall_update_iff state.worker fun _ (pc : WorkerPc) =>
      ∀ line left, pc = .writing line left →
        ∃ written, line.pieces = written ++ left ∧ started ++ piece = written.flatten).mpr
    refine ⟨fun line' left' hpc' => ?_, fun other hne line' left' hother => ?_⟩
    · obtain ⟨rfl, rfl⟩ := WorkerPc.writing.inj hpc'
      obtain ⟨written, hpieces, hstarted⟩ := h.owner index line (piece :: left) hpc
      exact ⟨written ++ [piece], by simpa using hpieces, by simp [hstarted]⟩
    · exact absurd (h.guards.exclusive ⟨line', left', hother⟩ ⟨line, _, hpc⟩) hne
  lines := by
    apply (Function.forall_update_iff state.worker fun other (pc : WorkerPc) =>
      ∀ line, lineOf pc = some line → Requested (labels ++ [Label.other]) other line).mpr
    refine ⟨fun line' hline => (h.lines index line' ?_).mono _,
      fun other _ line hpc => (h.lines other line hpc).mono _⟩
    rw [hpc]
    exact hline
  done_lines entry hentry := (h.done_lines entry hentry).mono _
  nodup := h.nodup
  exited := by
    apply (Function.forall_update_iff state.worker fun other (pc : WorkerPc) =>
      other ∈ done.map Prod.fst ↔ pc = .exited).mpr
    refine ⟨?_, fun other _ => h.exited other⟩
    have hexited := h.exited index
    rw [hpc] at hexited
    simpa using hexited
  order := by
    rw [lockers_append]
    exact (List.append_nil _).trans h.order

/-- When nothing is left to write, the line is whole. -/
theorem Sheet.unlock {labels : List (Label setup)} {done : List (Entry setup)} {started : Bytes}
    {line : RequestLine} (h : Sheet labels done started state)
    (hpc : state.worker index = .writing line []) :
    Sheet (labels ++ [.other]) (done ++ [(index, line)]) []
      { state.setWorker index .exited with csvMutex := none } where
  text := by
    obtain ⟨written, hpieces, hstarted⟩ := h.owner index line [] hpc
    rw [List.append_nil] at hpieces
    change state.text = _
    rw [h.text, hstarted, ← hpieces]
    simp [textOf, RequestLine.text]
  guards := h.guards.unlock ⟨line, _, hpc⟩ (by simp [Writing])
  free _ := rfl
  owner := by
    apply (Function.forall_update_iff state.worker fun _ (pc : WorkerPc) =>
      ∀ line left, pc = .writing line left →
        ∃ written, line.pieces = written ++ left ∧ ([] : Bytes) = written.flatten).mpr
    refine ⟨fun _ _ hpc' => (nomatch hpc'), fun other hne line' left' hother => ?_⟩
    exact absurd (h.guards.exclusive ⟨line', left', hother⟩ ⟨line, _, hpc⟩) hne
  lines := by
    apply (Function.forall_update_iff state.worker fun other (pc : WorkerPc) =>
      ∀ line, lineOf pc = some line → Requested (labels ++ [Label.other]) other line).mpr
    exact ⟨fun _ hline => (nomatch hline), fun other _ line hpc => (h.lines other line hpc).mono _⟩
  done_lines entry hentry := by
    rcases List.mem_append.mp hentry with hold | hnew
    · exact (h.done_lines entry hold).mono _
    · obtain rfl := List.mem_singleton.mp hnew
      exact (h.lines index line (by rw [hpc]; rfl)).mono _
  nodup := by
    have hfresh : index ∉ done.map Prod.fst := by
      rw [h.exited index, hpc]
      exact nofun
    rw [List.map_append, List.map_singleton]
    exact List.nodup_append.mpr ⟨h.nodup, List.nodup_singleton _, fun a ha b hb => by
      obtain rfl := List.mem_singleton.mp hb
      exact fun heq => hfresh (heq ▸ ha)⟩
  exited := by
    apply (Function.forall_update_iff state.worker fun other (pc : WorkerPc) =>
      other ∈ (done ++ [(index, line)]).map Prod.fst ↔ pc = .exited).mpr
    refine ⟨by simp, fun other hne => ?_⟩
    rw [List.map_append, List.map_singleton, List.mem_append, List.mem_singleton, h.exited other]
    exact or_iff_left hne
  order := by
    have horder := h.order
    rw [(h.guards index).mp ⟨line, _, hpc⟩] at horder
    rw [lockers_append, horder, List.map_append]
    exact (List.append_nil _).trans (List.append_nil _).symm

theorem sheet_step {labels : List (Label setup)} {done : List (Entry setup)} {started : Bytes}
    (h : Sheet labels done started state) (habsent : ∀ index next, state.main = .spawning next →
      next.toNat = repetition index → state.worker index = .absent)
    (hstep : Step state label state') :
    ∃ done' started', Sheet (labels ++ [label]) done' started' state' := by
  cases hstep with
  | main hmain =>
    cases hmain with
    | spawn index next hpc hnext hindex =>
      have hworker := habsent index next hpc hindex
      exact ⟨done, started, h.move index .preparing (by simp [Writing, hworker])
        (by simp [Writing]) (by simp [hworker]) nofun _ rfl _ _ nofun⟩
    | spawned next hpc | pass hpc | join index hpc | joined hpc =>
      exact ⟨done, started, h.main_moves _ rfl _ _⟩
    | arrive barrier hpc => exact ⟨done, started, h.main_moves _ rfl _ _⟩
  | work index hlive hwork =>
    cases hwork with
    | prepare hpc =>
      exact ⟨done, started, h.move index .arriving (by simp [Writing, hpc]) (by simp [Writing])
        (by simp [hpc]) nofun _ rfl _ _ nofun⟩
    | pass hpc =>
      exact ⟨done, started, h.move index .requesting (by simp [Writing, hpc]) (by simp [Writing])
        (by simp [hpc]) nofun _ rfl _ _ nofun⟩
    | noHandle hpc => exact ⟨done, started, h.main_moves _ rfl _ _⟩
    | arrive barrier hpc =>
      exact ⟨done, started, h.move index .waiting (by simp [Writing, hpc]) (by simp [Writing])
        (by simp [hpc]) nofun _ rfl _ _ nofun⟩
    | request reply elapsed rate hpc =>
      refine ⟨done, started, h.move index (.locking (row index elapsed rate reply))
        (by simp [Writing, hpc]) (by simp [Writing]) (by simp [hpc]) nofun _ rfl _ _
        fun line hline => ?_⟩
      exact ⟨reply, elapsed, rate, List.mem_append_right _ List.mem_cons_self,
        (Option.some.inj hline).symm⟩
    | lock line hpc hfree => exact ⟨done, [], h.lock hpc hfree⟩
    | write line piece left hpc => exact ⟨done, started ++ piece, h.write hpc⟩
    | unlock line hpc => exact ⟨done ++ [(index, line)], [], h.unlock hpc⟩

end Lines

end ProtobufKafkaBench.ConcurrentRegistration

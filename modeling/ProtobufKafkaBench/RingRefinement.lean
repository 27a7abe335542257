import ProtobufKafkaBench.RingInvariant
import ProtobufKafkaBench.BoundedFifo

/-!
Runs of the pointer ring. From the invariant, by induction over the steps of
any schedule: the values popped are an initial part of the values pushed, each
slot is written and read alternately, and the two refusals are exact when a
load returns the newest value. With the visible events mapped to operations,
every run of the ring is a run of the abstract bounded queue.
-/
namespace ProtobufKafkaBench.SpscPointerRing

open Transitions AtomicCells

variable {capacity : RingCapacity} {α : Type*}

section Unread

/-- A value that is in its slot although its `head_` store has not been made. -/
def TryPush.inFlight : TryPush α → List α
  | .wroteEntry value _ => [value]
  | _ => []

/-- One when the oldest value has been read although its `tail_` store is missing. -/
def Pop.readAhead : Pop α → ℕ
  | .readEntry _ _ => 1
  | _ => 0

/-- The values written and not yet read, oldest first. -/
def unread (ring : Ring capacity α) (queue : List α) : List α :=
  (queue ++ ring.push.inFlight).drop ring.pop.readAhead

/-- Slot by slot: the history alternates, and what is pending in a slot is the
unread value whose index, counted from `first`, falls on that slot. -/
def SlotsAlternate (events : List (Event capacity α)) (first : ℕ) (values : List α) : Prop :=
  ∀ slot, ∃ pending, Alternates (slotAccesses slot events) pending ∧
    ∀ value, pending = some value ↔
      ∃ j, values[j]? = some value ∧ capacity.slot (BitVec.ofNat 64 (first + j)) = slot

theorem slotsAlternate_nil : SlotsAlternate ([] : List (Event capacity α)) 0 [] :=
  fun _ => ⟨none, Alternates.fresh, by simp⟩

theorem slotsAlternate_write {events : List (Event capacity α)} {first : ℕ}
    {values : List α} (value : α) (h : SlotsAlternate events first values)
    (hroom : values.length < capacity.size) :
    SlotsAlternate
      (events ++ [.pushWrite (capacity.slot (BitVec.ofNat 64 (first + values.length))) value])
      first (values ++ [value]) := by
  intro slot
  obtain ⟨pending, halt, hpending⟩ := h slot
  by_cases hslot : capacity.slot (BitVec.ofNat 64 (first + values.length)) = slot
  · have hnone : pending = none := by
      cases pending with
      | none => rfl
      | some old =>
        obtain ⟨j, hj, hjslot⟩ := (hpending old).mp rfl
        have hlt := (List.getElem?_eq_some_iff.mp hj).1
        have := capacity.slot_ofNat_inj (by omega) (by omega) (hjslot.trans hslot.symm)
        omega
    subst hnone
    refine ⟨some value, ?_, ?_⟩
    · simpa [slotAccesses, hslot] using halt.write value
    · intro v
      constructor
      · rintro heq
        exact ⟨values.length, by simpa using heq, hslot⟩
      · intro h
        obtain ⟨j, hj, hjslot⟩ := h
        rcases getElem?_snoc_eq_some hj with hold | ⟨-, rfl⟩
        · exact absurd ((hpending v).mpr ⟨j, hold, hjslot⟩) (by simp)
        · rfl
  · refine ⟨pending, by simpa [slotAccesses, hslot] using halt, ?_⟩
    intro v
    rw [hpending v]
    constructor
    · intro h
      obtain ⟨j, hj, hjslot⟩ := h
      have hlt := (List.getElem?_eq_some_iff.mp hj).1
      exact ⟨j, by rwa [List.getElem?_append_left hlt], hjslot⟩
    · intro h
      obtain ⟨j, hj, hjslot⟩ := h
      rcases getElem?_snoc_eq_some hj with hold | ⟨rfl, -⟩
      · exact ⟨j, hold, hjslot⟩
      · exact absurd hjslot hslot

theorem slotsAlternate_read {events : List (Event capacity α)} {first : ℕ} {value : α}
    {rest : List α} (h : SlotsAlternate events first (value :: rest))
    (hbound : rest.length < capacity.size) :
    SlotsAlternate
      (events ++ [.popRead (capacity.slot (BitVec.ofNat 64 first)) (some value)])
      (first + 1) rest := by
  intro slot
  have hshift : ∀ j, first + (j + 1) = first + 1 + j := by
    intro j
    omega
  obtain ⟨pending, halt, hpending⟩ := h slot
  by_cases hslot : capacity.slot (BitVec.ofNat 64 first) = slot
  · have hsome : pending = some value := (hpending value).mpr ⟨0, rfl, hslot⟩
    subst hsome
    refine ⟨none, by simpa [slotAccesses, hslot] using halt.read value, ?_⟩
    intro v
    constructor
    · intro heq
      simp at heq
    · intro h
      obtain ⟨j, hj, hjslot⟩ := h
      have hlt := (List.getElem?_eq_some_iff.mp hj).1
      have := capacity.slot_ofNat_inj (by omega) (by omega) (hslot.trans hjslot.symm)
      omega
  · refine ⟨pending, by simpa [slotAccesses, hslot] using halt, ?_⟩
    intro v
    rw [hpending v]
    constructor
    · intro h
      obtain ⟨j, hj, hjslot⟩ := h
      cases j with
      | zero => exact absurd hjslot hslot
      | succ j => exact ⟨j, by simpa using hj, by rwa [hshift j] at hjslot⟩
    · intro h
      obtain ⟨j, hj, hjslot⟩ := h
      exact ⟨j + 1, by simpa using hj, by rwa [← hshift j] at hjslot⟩

/-- A step that does not touch `entries_` and keeps what is unread. -/
theorem slotsAlternate_other {events : List (Event capacity α)} {first first' : ℕ}
    {values values' : List α} {event : Event capacity α}
    (h : SlotsAlternate events first values)
    (hevent : ∀ slot, slotAccesses slot [event] = [])
    (hfirst : first' = first) (hvalues : values' = values) :
    SlotsAlternate (events ++ [event]) first' values' := by
  subst hfirst hvalues
  intro slot
  obtain ⟨pending, halt, hpending⟩ := h slot
  refine ⟨pending, ?_, hpending⟩
  have happend : slotAccesses slot (events ++ [event]) =
      slotAccesses slot events ++ slotAccesses slot [event] := by simp [slotAccesses]
  rw [happend, hevent slot, List.append_nil]
  exact halt

variable {visibility : Visibility} {ring ring' : Ring capacity α} {taken : ℕ} {queue : List α}

/-- The value that `pop` has read ahead is still queued. -/
theorem readAhead_le (h : Represents ring taken queue) :
    ring.pop.readAhead ≤ queue.length := by
  cases hpop : ring.pop with
  | readEntry value tail =>
    obtain ⟨first, rest, rfl, -⟩ := h.pop_value hpop
    simp [Pop.readAhead]
  | _ => exact Nat.zero_le _

/-- Behind the value that is about to be read there is room for all that is unread. -/
theorem unread_tail_lt {first : α} {rest : List α} (h : Represents ring taken (first :: rest)) :
    (rest ++ ring.push.inFlight).length < capacity.size := by
  have hle := h.queue_length_le
  have hpush := h.push
  have hseenTail := h.seenTail_le
  simp only [List.length_cons] at hle hpush
  cases hp : ring.push with
  | wroteEntry v head =>
    rw [hp] at hpush
    have hroom := hpush.2.1
    simp only [TryPush.inFlight, List.length_append, List.length_singleton]
    omega
  | _ =>
    simp only [TryPush.inFlight, List.append_nil]
    omega

theorem slotsAlternate_step {events : List (Event capacity α)} {event : Event capacity α}
    (h : Represents ring taken queue) (hstep : Step visibility ring event ring')
    (hslots : SlotsAlternate events (taken + ring.pop.readAhead) (unread ring queue)) :
    SlotsAlternate (events ++ [event])
      ((event.effect taken queue).1 + ring'.pop.readAhead)
      (unread ring' (event.effect taken queue).2) := by
  have hle := h.queue_length_le
  cases hstep with
  | pushLoadHead value hpc | pushFull value head tail version hpc hread hfull
  | pushRoom value head tail version hpc hread hroom =>
    refine slotsAlternate_other hslots (fun _ => rfl) rfl ?_
    simp [unread, hpc, TryPush.inFlight, Event.effect]
  | popLoadTail hpc | popEmpty tail head version hpc hread hempty
  | popFound tail head version hpc hread hfound =>
    refine slotsAlternate_other hslots (fun _ => rfl) ?_ ?_
    · simp [hpc, Pop.readAhead, Event.effect]
    · simp [unread, hpc, Pop.readAhead, Event.effect]
  | pushStore value head hpc =>
    refine slotsAlternate_other hslots (fun _ => rfl) rfl ?_
    simp [unread, hpc, TryPush.inFlight, Event.effect]
  | pushWrite value head hpc =>
    have hpush := h.push
    rw [hpc] at hpush
    obtain ⟨rfl, hroom⟩ := hpush
    have hseen := h.seenTail_le
    have hahead := readAhead_le h
    have hunread : unread ring queue = queue.drop ring.pop.readAhead := by
      simp [unread, hpc, TryPush.inFlight]
    have hlength : (unread ring queue).length = queue.length - ring.pop.readAhead := by
      rw [hunread, List.length_drop]
    have hwrite := slotsAlternate_write value hslots (by omega)
    rw [hlength, show taken + ring.pop.readAhead + (queue.length - ring.pop.readAhead) =
      taken + queue.length by omega] at hwrite
    have hafter : unread { ring.writeEntry (BitVec.ofNat 64 (taken + queue.length)) value with
        push := .wroteEntry value (BitVec.ofNat 64 (taken + queue.length)) } queue =
        unread ring queue ++ [value] := by
      simp only [unread, Ring.writeEntry, hpc, TryPush.inFlight, List.append_nil]
      exact List.drop_append_of_le_length hahead
    rw [← hafter] at hwrite
    exact hwrite
  | popRead tail hpc =>
    have hpop := h.pop
    rw [hpc] at hpop
    obtain ⟨rfl, hfound⟩ := hpop
    have hread := h.readEntry_eq_head hfound
    have hseen := h.seenHead_le
    cases queue with
    | nil =>
      simp only [List.length_nil] at hseen
      omega
    | cons first rest =>
      have hunread : unread ring (first :: rest) = first :: (rest ++ ring.push.inFlight) := by
        simp [unread, hpc, Pop.readAhead]
      have hfit := unread_tail_lt h
      rw [hunread, hpc] at hslots
      simp only [List.head?_cons] at hread
      rw [hread]
      simpa [unread, Event.effect, Pop.readAhead] using slotsAlternate_read hslots hfit
  | popStore value tail hpc =>
    obtain ⟨first, rest, rfl, -⟩ := h.pop_value hpc
    refine slotsAlternate_other hslots (fun _ => rfl) ?_ ?_
    · simp [hpc, Pop.readAhead, Event.effect]
    · simp [unread, hpc, Pop.readAhead, Event.effect]

end Unread

section Runs

variable {visibility : Visibility} {history : List (Ring capacity α × Event capacity α)}
  {ring : Ring capacity α}

theorem pushed_snoc (events : List (Event capacity α)) (event : Event capacity α) :
    pushed (events ++ [event]) = pushed events ++ pushed [event] := by simp [pushed]

theorem popped_snoc (events : List (Event capacity α)) (event : Event capacity α) :
    popped (events ++ [event]) = popped events ++ popped [event] := by simp [popped]

/-- Along a run the invariant holds with the number of values popped so far and
with the pushed values that have not been popped; each slot alternates. -/
theorem run_represents
    (run : Run (Step visibility) (Ring.initial capacity α) history ring) :
    ∃ queue, Represents ring (popped (labels history)).length queue ∧
      (pushed (labels history)).map some = popped (labels history) ++ queue.map some ∧
      SlotsAlternate (labels history)
        ((popped (labels history)).length + ring.pop.readAhead) (unread ring queue) := by
  refine Run.invariant (fun h r => ∃ queue, Represents r (popped (labels h)).length queue ∧
    (pushed (labels h)).map some = popped (labels h) ++ queue.map some ∧
    SlotsAlternate (labels h) ((popped (labels h)).length + r.pop.readAhead) (unread r queue))
    ⟨[], represents_initial capacity α, rfl, slotsAlternate_nil⟩ ?_ run
  rintro h r event r' - ⟨queue, hrep, hconserved, hslots⟩ hstep
  have hrep' := represents_step hrep hstep
  have hslots' := slotsAlternate_step hrep hstep hslots
  refine ⟨(event.effect (popped (labels h)).length queue).2, ?_⟩
  rw [labels_append, labels_cons, labels_nil, popped_snoc, pushed_snoc]
  cases hstep with
  | pushStore value head hpc =>
    refine ⟨by simpa [popped, Event.effect] using hrep', ?_,
      by simpa [popped, Event.effect] using hslots'⟩
    simp only [pushed, popped, Event.effect] at hconserved ⊢
    simp [hconserved]
  | popStore value tail hpc =>
    obtain ⟨first, rest, rfl, rfl⟩ := hrep.pop_value hpc
    refine ⟨by simpa [popped, Event.effect] using hrep', ?_,
      by simpa [popped, Event.effect] using hslots'⟩
    simp only [pushed, popped, Event.effect] at hconserved ⊢
    simp [hconserved]
  | _ =>
    refine ⟨by simpa [popped, Event.effect] using hrep', ?_,
      by simpa [popped, Event.effect] using hslots'⟩
    simpa [pushed, popped, Event.effect] using hconserved

/-- What a step of the ring is for the abstract queue. -/
def fifoView : Event capacity α → Option (BoundedFifo.Event α)
  | .pushStore value => some (.enqueue value)
  | .pushFull _ => some .full
  | .popStore (some value) => some (.dequeue value)
  | .popEmpty => some .empty
  | _ => none

/-- When loads return the newest value, a refused `try_push` met a full ring. -/
theorem Represents.full_exact {ring' : Ring capacity α} {taken : ℕ} {queue : List α}
    {value : α} (h : Represents ring taken queue)
    (hstep : Step .interleaving ring (.pushFull value) ring') :
    queue.length = capacity.size := by
  cases hstep with
  | pushFull _ head tail version hpc hread hfull =>
    obtain ⟨h1, h2, rfl⟩ := h.read_tail hread
    have hpush := h.push
    rw [hpc] at hpush
    have hhead : head = BitVec.ofNat 64 (taken + queue.length) := hpush
    subst hhead
    have hversion : version = taken := hread.1.trans h.tail_counts.version
    have hsize := (h.full_iff h1 h2).mp hfull
    omega

/-- When loads return the newest value, a null `pop` met an empty ring. -/
theorem Represents.empty_exact {ring' : Ring capacity α} {taken : ℕ} {queue : List α}
    (h : Represents ring taken queue) (hstep : Step .interleaving ring .popEmpty ring') :
    queue = [] := by
  cases hstep with
  | popEmpty tail head version hpc hread hempty =>
    obtain ⟨h1, h2, rfl⟩ := h.read_head hread
    have hpop := h.pop
    rw [hpc] at hpop
    have htail : tail = BitVec.ofNat 64 taken := hpop
    subst htail
    have hversion : version = taken + queue.length := hread.1.trans h.head_counts.version
    have htaken := (h.empty_iff h1 h2).mp hempty
    exact List.length_eq_zero_iff.mp (by omega)

/-- A step of the ring is a step of the abstract queue or leaves it alone. -/
theorem fifo_step {ring' : Ring capacity α} {event : Event capacity α} {taken : ℕ}
    {queue : List α} (h : Represents ring taken queue)
    (hstep : Step .interleaving ring event ring') :
    StepsOrStays (BoundedFifo.Step capacity.size) (fifoView event) queue
      (event.effect taken queue).2 := by
  have hstep' := hstep
  cases hstep with
  | pushFull value head tail version hpc hread hfull =>
    exact BoundedFifo.Step.full queue (h.full_exact hstep')
  | pushStore value head hpc =>
    have hpush := h.push
    rw [hpc] at hpush
    have hseen := h.seenTail_le
    have hroom := hpush.2.1
    exact BoundedFifo.Step.enqueue queue value (by omega)
  | popEmpty tail head version hpc hread hempty =>
    obtain rfl := h.empty_exact hstep'
    exact BoundedFifo.Step.empty
  | popStore value tail hpc =>
    obtain ⟨first, rest, rfl, rfl⟩ := h.pop_value hpc
    exact BoundedFifo.Step.dequeue first rest
  | _ => rfl

/-- Every schedule of the ring is a run of the abstract bounded queue. -/
theorem ring_simulates_fifo
    (run : Run (Step .interleaving) (Ring.initial capacity α) history ring) :
    ∃ fifoHistory queue, Run (BoundedFifo.Step capacity.size) [] fifoHistory queue ∧
      labels fifoHistory = visible fifoView history ∧ ∃ taken, Represents ring taken queue := by
  refine Run.simulate (fun r queue => ∃ taken, Represents r taken queue) fifoView
    ⟨0, represents_initial capacity α⟩ ?_ run
  rintro h r event r' queue - ⟨taken, hrep⟩ hstep
  exact ⟨_, fifo_step hrep hstep, _, represents_step hrep hstep⟩

theorem Represents.counter_difference {taken : ℕ} {queue : List α}
    (h : Represents ring taken queue) :
    (ring.head.current - ring.tail.current).toNat = queue.length := by
  have hlength := h.queue_length_le
  have hlt := capacity.size_lt
  rw [h.head_counts.current, h.tail_counts.current, toNat_ofNat_sub (by omega) (by omega)]
  omega

/-- The ring refines a bounded queue, under every interleaving of the two calls'
loads, stores and slot accesses: its visible operations are a run of the
abstract queue, values come out in the order they went in, no slot is written
over an unread value or read before it is written, the wrapped difference of
the counters stays within the capacity, and each refusal is exact at the load
that decided it. -/
theorem spscPointerRing_refines_bounded_fifo
    (run : Run (Step .interleaving) (Ring.initial capacity α) history ring) :
    (∃ fifoHistory queue, Run (BoundedFifo.Step capacity.size) [] fifoHistory queue ∧
      labels fifoHistory = visible fifoView history) ∧
    popped (labels history) <+: (pushed (labels history)).map some ∧
    (∀ slot, ∃ pending, Alternates (slotAccesses slot (labels history)) pending) ∧
    (ring.head.current - ring.tail.current).toNat ≤ capacity.size ∧
    (∀ before value after, labels history = before ++ .pushFull value :: after →
      (pushed before).length = (popped before).length + capacity.size) ∧
    (∀ before after, labels history = before ++ .popEmpty :: after →
      popped before = (pushed before).map some) := by
  obtain ⟨queue, hrep, hconserved, hslots⟩ := run_represents run
  refine ⟨?_, ⟨queue.map some, hconserved.symm⟩, ?_, ?_, ?_, ?_⟩
  · obtain ⟨fifoHistory, queue, hrun, hlabels, -⟩ := ring_simulates_fifo run
    exact ⟨fifoHistory, queue, hrun, hlabels⟩
  · intro slot
    obtain ⟨pending, halt, -⟩ := hslots slot
    exact ⟨pending, halt⟩
  · rw [hrep.counter_difference]
    exact hrep.queue_length_le
  · intro before value after heq
    obtain ⟨earlier, s, u, rfl, hrun, hs⟩ := run.split_labels heq
    obtain ⟨queue', hrep', hconserved', -⟩ := run_represents hrun
    have hlength := congrArg List.length hconserved'
    rw [List.length_append, List.length_map, List.length_map, hrep'.full_exact hs] at hlength
    exact hlength
  · intro before after heq
    obtain ⟨earlier, s, u, rfl, hrun, hs⟩ := run.split_labels heq
    obtain ⟨queue', hrep', hconserved', -⟩ := run_represents hrun
    obtain rfl := hrep'.empty_exact hs
    simpa using hconserved'.symm

/-- Two slots: the third `try_push` is refused until the first value has been popped, and
then uses the first slot again. -/
theorem spscPointerRing_refines_bounded_fifo_capacity_two :
    ∃ (history : List (Ring ⟨1, by decide⟩ ℕ × Event ⟨1, by decide⟩ ℕ))
      (ring : Ring ⟨1, by decide⟩ ℕ),
      Run (Step .interleaving) (Ring.initial _ ℕ) history ring ∧
      pushed (labels history) = [7, 8, 9] ∧
      popped (labels history) = [some 7, some 8, some 9] ∧
      popped (labels history) <+: (pushed (labels history)).map some ∧
      slotAccesses (RingCapacity.slot _ 0) (labels history) =
        [.write 7, .read (some 7), .write 9, .read (some 9)] ∧
      (∃ pending, Alternates (slotAccesses (RingCapacity.slot _ 0) (labels history)) pending) ∧
      (pushed ((labels history).take 9)).length =
        (popped ((labels history).take 9)).length + 2 := by
  have run : Run (Step .interleaving) (Ring.initial ⟨1, by decide⟩ ℕ) [] _ := Run.nil
  have run := run.snoc (Step.pushLoadHead _ 7 rfl)
  have run := run.snoc (Step.pushRoom _ 7 0 0 0 rfl ⟨rfl, rfl⟩ (by decide))
  have run := run.snoc (Step.pushWrite _ 7 0 rfl)
  have run := run.snoc (Step.pushStore _ 7 0 rfl)
  have run := run.snoc (Step.pushLoadHead _ 8 rfl)
  have run := run.snoc (Step.pushRoom _ 8 1 0 0 rfl ⟨rfl, rfl⟩ (by decide))
  have run := run.snoc (Step.pushWrite _ 8 1 rfl)
  have run := run.snoc (Step.pushStore _ 8 1 rfl)
  have run := run.snoc (Step.pushLoadHead _ 9 rfl)
  have run := run.snoc (Step.pushFull _ 9 2 0 0 rfl ⟨rfl, rfl⟩ (by decide))
  have run := run.snoc (Step.popLoadTail _ rfl)
  have run := run.snoc (Step.popFound _ 0 2 2 rfl ⟨rfl, rfl⟩ (by decide))
  have run := run.snoc (Step.popRead _ 0 rfl)
  have run := run.snoc (Step.popStore _ (some 7) 0 rfl)
  have run := run.snoc (Step.pushLoadHead _ 9 rfl)
  have run := run.snoc (Step.pushRoom _ 9 2 1 1 rfl ⟨rfl, rfl⟩ (by decide))
  have run := run.snoc (Step.pushWrite _ 9 2 rfl)
  have run := run.snoc (Step.pushStore _ 9 2 rfl)
  have run := run.snoc (Step.popLoadTail _ rfl)
  have run := run.snoc (Step.popFound _ 1 3 3 rfl ⟨rfl, rfl⟩ (by decide))
  have run := run.snoc (Step.popRead _ 1 rfl)
  have run := run.snoc (Step.popStore _ (some 8) 1 rfl)
  have run := run.snoc (Step.popLoadTail _ rfl)
  have run := run.snoc (Step.popFound _ 2 3 3 rfl ⟨rfl, rfl⟩ (by decide))
  have run := run.snoc (Step.popRead _ 2 rfl)
  have run := run.snoc (Step.popStore _ (some 9) 2 rfl)
  obtain ⟨-, horder, hslots, -, hfull, -⟩ := spscPointerRing_refines_bounded_fifo run
  exact ⟨_, _, run, rfl, rfl, horder, rfl, hslots _, hfull _ 9 _ rfl⟩

end Runs

end ProtobufKafkaBench.SpscPointerRing

import ProtobufKafkaBench.Transitions

/-!
The abstract bounded first-in first-out queue, as a labelled transition
system over the list of queued values. Refused and empty calls are steps of
their own and are only possible on a full and on an empty queue. Over any run
the values taken out are an initial part of the values put in.
-/
namespace ProtobufKafkaBench.BoundedFifo

open Transitions

variable {α : Type*}

inductive Event (α : Type*)
  | enqueue (value : α)
  | full
  | dequeue (value : α)
  | empty

/-- `capacity` bounds the queue; the oldest value is at the head of the list. -/
inductive Step (capacity : ℕ) : List α → Event α → List α → Prop
  | enqueue (queue : List α) (value : α) (hroom : queue.length < capacity) :
      Step capacity queue (.enqueue value) (queue ++ [value])
  | full (queue : List α) (hfull : queue.length = capacity) :
      Step capacity queue .full queue
  | dequeue (value : α) (queue : List α) :
      Step capacity (value :: queue) (.dequeue value) queue
  | empty : Step capacity [] .empty []

def enqueued (events : List (Event α)) : List α :=
  events.filterMap fun event => match event with
    | .enqueue value => some value
    | _ => none

def dequeued (events : List (Event α)) : List α :=
  events.filterMap fun event => match event with
    | .dequeue value => some value
    | _ => none

/-- What was put in is what was taken out followed by what is still queued. -/
theorem run_conserves {capacity : ℕ} {history : List (List α × Event α)} {queue : List α}
    (run : Run (Step capacity) [] history queue) :
    enqueued (labels history) = dequeued (labels history) ++ queue ∧
      queue.length ≤ capacity := by
  refine Run.invariant
    (fun h q => enqueued (labels h) = dequeued (labels h) ++ q ∧ q.length ≤ capacity)
    (by simp [enqueued, dequeued]) ?_ run
  rintro h q event q' - ⟨hconserved, hbound⟩ hstep
  cases hstep with
  | enqueue _ value hroom =>
    constructor
    · simp_all [enqueued, dequeued]
    · simpa using Nat.succ_le_of_lt hroom
  | full _ hfull => simpa [enqueued, dequeued] using And.intro hconserved hbound
  | dequeue value =>
    constructor
    · simp_all [enqueued, dequeued]
    · simp only [List.length_cons] at hbound
      omega
  | empty => simpa [enqueued, dequeued] using hconserved

end ProtobufKafkaBench.BoundedFifo

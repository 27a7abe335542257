import ProtobufKafkaBench.Transitions
import Mathlib.Tactic.Push

/-!
Runs that come to an end. A measure that some step lowers in every unfinished
state shows that any run can be continued to its goal. A measure that every step
lowers shows more: no schedule goes on for ever, and if only final states are
stuck then every schedule that goes on as long as it can has ended in one.
-/
namespace ProtobufKafkaBench.Completions

open Transitions

variable {σ ℓ : Type*} {step : σ → ℓ → σ → Prop} {start s t : σ} {label : ℓ}
  {history : List (σ × ℓ)} {goal : σ → Prop}

/-- Some continuation of the schedule leads to the goal. -/
def CanReach (step : σ → ℓ → σ → Prop) (goal : σ → Prop) (s : σ) : Prop :=
  ∃ history t, Run step s history t ∧ goal t

theorem CanReach.here (h : goal s) : CanReach step goal s := ⟨[], s, Run.nil, h⟩

theorem CanReach.after (hstep : step s label t) (h : CanReach step goal t) :
    CanReach step goal s := by
  obtain ⟨history, u, hrun, hgoal⟩ := h
  exact ⟨(s, label) :: history, u, (Run.nil.snoc hstep).append hrun, hgoal⟩

/-- If every reachable state is at its goal or has a step that lowers the measure, then
every run can be continued to the goal. -/
theorem canReach_of_measure (measure : σ → ℕ)
    (hprogress : ∀ history s, Run step start history s →
      goal s ∨ ∃ label t, step s label t ∧ measure t < measure s)
    (run : Run step start history s) : CanReach step goal s := by
  induction hn : measure s using Nat.strongRecOn generalizing history s with
  | ind n ih =>
    rcases hprogress history s run with hgoal | ⟨label, t, hstep, hlt⟩
    · exact CanReach.here hgoal
    · exact CanReach.after hstep (ih (measure t) (by omega) (run.snoc hstep) rfl)

/-- No schedule is endless, and one that cannot be continued has reached the goal. -/
structure Terminates (step : σ → ℓ → σ → Prop) (start : σ) (goal : σ → Prop) : Prop where
  bounded : ∃ bound, ∀ history s, Run step start history s → history.length ≤ bound
  ends : ∀ history s, Run step start history s → (∀ label t, ¬ step s label t) → goal s

theorem length_add_measure_le (measure : σ → ℕ)
    (hlower : ∀ history s label t, Run step start history s → step s label t →
      measure t < measure s)
    (run : Run step start history s) : history.length + measure s ≤ measure start := by
  induction run with
  | nil => simp
  | snoc run hstep ih =>
    have hlt := hlower _ _ _ _ run hstep
    rw [List.length_append, List.length_singleton]
    omega

theorem terminates_of_measure (measure : σ → ℕ)
    (hlower : ∀ history s label t, Run step start history s → step s label t →
      measure t < measure s)
    (hstuck : ∀ history s, Run step start history s → (∀ label t, ¬ step s label t) → goal s) :
    Terminates step start goal where
  bounded := by
    refine ⟨measure start, fun history s run => ?_⟩
    have hsum := length_add_measure_le measure hlower run
    omega
  ends := hstuck

/-- In particular every run can be continued to the goal. -/
theorem Terminates.canReach (h : Terminates step start goal) (run : Run step start history s) :
    CanReach step goal s := by
  obtain ⟨bound, hbound⟩ := h.bounded
  induction hn : bound - history.length using Nat.strongRecOn generalizing history s with
  | ind n ih =>
    by_cases hstuck : ∀ label t, ¬ step s label t
    · exact CanReach.here (h.ends history s run hstuck)
    · push Not at hstuck
      obtain ⟨label, t, hstep⟩ := hstuck
      have hlength := hbound _ _ (run.snoc hstep)
      rw [List.length_append, List.length_singleton] at hlength
      refine CanReach.after hstep (ih _ ?_ (run.snoc hstep) rfl)
      rw [List.length_append, List.length_singleton]
      omega

end ProtobufKafkaBench.Completions

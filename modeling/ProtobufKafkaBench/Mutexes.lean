import Mathlib.Algebra.BigOperators.Group.Finset.Basic
import Mathlib.Algebra.Order.BigOperators.Group.Finset
import Mathlib.Data.Fintype.BigOperators

/-!
Mutexes held by named threads, for any type of threads. Each thread has a local
state, and a predicate on local states says when a thread is inside the section
that the mutex protects. The mutex guards the section when its owner is exactly
the thread inside. One lemma for each thing a thread can do: take the mutex,
give it back, or move without crossing the section's border. The second part is
the total of an account that every thread keeps a part of.
-/
namespace ProtobufKafkaBench.Mutexes

/-- The owner, if there is one. -/
abbrev Mutex (ι : Type*) := Option ι

section Guards

variable {ι α : Type*} {mutex : Mutex ι} {inside : α → Prop} {state : ι → α}

/-- The thread inside the section is the owner of the mutex, and conversely. -/
def Guards (mutex : Mutex ι) (inside : α → Prop) (state : ι → α) : Prop :=
  ∀ thread, inside (state thread) ↔ mutex = some thread

theorem Guards.exclusive (h : Guards mutex inside state) {v w : ι} (hv : inside (state v))
    (hw : inside (state w)) : v = w := by
  have heq : some v = some w := ((h v).mp hv).symm.trans ((h w).mp hw)
  exact Option.some.inj heq

theorem Guards.free (h : ∀ thread, ¬ inside (state thread)) : Guards none inside state := by
  intro thread
  simp [h thread]

theorem Guards.eq_none (hguards : Guards mutex inside state)
    (h : ∀ thread, ¬ inside (state thread)) : mutex = none := by
  rw [Option.eq_none_iff_forall_ne_some]
  exact fun thread heq => h thread ((hguards thread).mpr heq)

variable [DecidableEq ι] {thread : ι} {next : α}

theorem Guards.lock (h : Guards none inside state) (hin : inside next) :
    Guards (some thread) inside (Function.update state thread next) := by
  intro other
  by_cases heq : other = thread
  · subst heq
    simpa using hin
  · rw [Function.update_of_ne heq]
    have hout : ¬ inside (state other) := fun hother => by simpa using (h other).mp hother
    simp [hout, Ne.symm heq]

theorem Guards.unlock (h : Guards mutex inside state) (hin : inside (state thread))
    (hout : ¬ inside next) : Guards none inside (Function.update state thread next) := by
  apply Guards.free
  intro other
  by_cases heq : other = thread
  · subst heq
    simpa using hout
  · rw [Function.update_of_ne heq]
    exact fun hother => heq (h.exclusive hother hin)

/-- A thread that stays inside, or stays outside, leaves the mutex right. -/
theorem Guards.move (h : Guards mutex inside state) (hsame : inside next ↔ inside (state thread)) :
    Guards mutex inside (Function.update state thread next) := by
  intro other
  by_cases heq : other = thread
  · subst heq
    rw [Function.update_self, hsame]
    exact h other
  · rw [Function.update_of_ne heq]
    exact h other

end Guards

section Totals

variable {ι α M : Type*} [Fintype ι] [DecidableEq ι] [AddCommGroup M]
  (part : α → M) (state : ι → α) (thread : ι) (next : α)

/-- When one thread moves, the total changes by what its own part changes by. -/
theorem total_update :
    ∑ other, part (Function.update state thread next other) =
      ∑ other, part (state other) - part (state thread) + part next := by
  have hcongr : (fun other => part (Function.update state thread next other)) =
      Function.update (fun other => part (state other)) thread (part next) := by
    funext other
    by_cases heq : other = thread
    · subst heq
      simp
    · simp [Function.update_of_ne heq]
  have hsplit := Finset.sum_update_of_mem (Finset.mem_univ thread)
    (fun other => part (state other)) (part next)
  have hrest := Finset.add_sum_erase Finset.univ (fun other => part (state other))
    (Finset.mem_univ thread)
  rw [hcongr, hsplit, Finset.sdiff_singleton_eq_erase, ← hrest, add_sub_cancel_left, add_comm]

theorem total_update_same (hsame : part next = part (state thread)) :
    ∑ other, part (Function.update state thread next other) = ∑ other, part (state other) := by
  rw [total_update, hsame, sub_add_cancel]

/-- A thread whose own part falls takes the total down. -/
theorem total_update_lt (measure : α → ℕ) {state : ι → α} {thread : ι} {next : α}
    (hlower : measure next < measure (state thread)) :
    ∑ other, measure (Function.update state thread next other) <
      ∑ other, measure (state other) := by
  apply Finset.sum_lt_sum
  · intro other _
    by_cases heq : other = thread
    · subst heq
      rw [Function.update_self]
      exact hlower.le
    · rw [Function.update_of_ne heq]
  · refine ⟨thread, Finset.mem_univ thread, ?_⟩
    rw [Function.update_self]
    exact hlower

end Totals

end ProtobufKafkaBench.Mutexes

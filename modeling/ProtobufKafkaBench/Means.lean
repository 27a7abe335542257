import Mathlib.Algebra.BigOperators.Group.List.Basic
import Mathlib.Algebra.Order.BigOperators.Group.List
import Mathlib.Algebra.Order.Field.Basic
import Mathlib.Tactic.FieldSimp
import Mathlib.Tactic.Positivity
import Mathlib.Tactic.Ring

/-!
Arithmetic means, and rates against times. The mean of the rates of some positive
times is never below the rate of their mean, and exceeds it by a sum of squares;
so the two agree only for equal times.
-/
namespace ProtobufKafkaBench.Means

variable {α : Type*} [Field α]

section Mean

/-- `statistics.mean`, which has no value for an empty list. -/
def mean (values : List α) : Option α :=
  match values with
  | [] => none
  | _ :: _ => some (values.sum / values.length)

theorem mean_eq_some {values : List α} {value : α} (h : mean values = some value) :
    values ≠ [] ∧ value = values.sum / values.length := by
  cases values with
  | nil => cases h
  | cons first rest => exact ⟨List.cons_ne_nil first rest, (Option.some.inj h).symm⟩

end Mean

section Rates

/-- By how much the rate of one time is above the tangent at the mean. -/
def excess (c μ x : α) : α := c * (μ - x) ^ 2 / (x * μ ^ 2)

theorem excess_self (c μ : α) : excess c μ μ = 0 := by
  rw [excess, sub_self, zero_pow two_ne_zero, mul_zero, zero_div]

theorem sum_excess {times : List α} {c μ : α} (hμ : μ ≠ 0) (hne : ∀ x ∈ times, x ≠ 0) :
    (times.map (excess c μ)).sum =
      (times.map (c / ·)).sum - 2 * c / μ * times.length + c / μ ^ 2 * times.sum := by
  induction times with
  | nil => simp
  | cons x rest ih =>
    have hx := hne x List.mem_cons_self
    have hrest := ih fun y hy => hne y (List.mem_cons_of_mem x hy)
    rw [List.map_cons, List.sum_cons, hrest, List.map_cons, List.sum_cons, List.sum_cons,
      List.length_cons, Nat.cast_succ, excess]
    field_simp
    ring

variable [LinearOrder α] [IsStrictOrderedRing α] {times : List α}

theorem length_cast_pos (hne : times ≠ []) : (0 : α) < times.length :=
  Nat.cast_pos.mpr (List.length_pos_iff.mpr hne)

theorem mean_pos (hne : times ≠ []) (hpos : ∀ x ∈ times, 0 < x) :
    0 < times.sum / times.length :=
  div_pos (List.sum_pos times hpos hne) (length_cast_pos hne)

/-- The mean of the rates is the rate of the mean and the mean excess. -/
theorem mean_rates_eq (c : α) (hne : times ≠ []) (hpos : ∀ x ∈ times, 0 < x) :
    (times.map (c / ·)).sum / times.length =
      c / (times.sum / times.length) +
        (times.map (excess c (times.sum / times.length))).sum / times.length := by
  have hlength := (length_cast_pos hne).ne'
  have hsum : times.sum ≠ 0 := (List.sum_pos times hpos hne).ne'
  rw [sum_excess (mean_pos hne hpos).ne' fun x hx => (hpos x hx).ne']
  field_simp
  ring

theorem excess_nonneg {c x : α} (μ : α) (hc : 0 ≤ c) (hx : 0 < x) : 0 ≤ excess c μ x := by
  unfold excess
  positivity

theorem excess_eq_zero {c μ x : α} (hc : c ≠ 0) (hμ : μ ≠ 0) (hx : x ≠ 0)
    (h : excess c μ x = 0) : x = μ := by
  rw [excess, div_eq_zero_iff, or_iff_left (mul_ne_zero hx (pow_ne_zero 2 hμ)), mul_eq_zero,
    or_iff_right hc] at h
  exact (sub_eq_zero.mp (pow_eq_zero_iff two_ne_zero |>.mp h)).symm

theorem rate_of_mean_le (hne : times ≠ []) (hpos : ∀ x ∈ times, 0 < x) {c : α} (hc : 0 ≤ c) :
    c / (times.sum / times.length) ≤ (times.map (c / ·)).sum / times.length := by
  rw [mean_rates_eq c hne hpos]
  have hexcess : 0 ≤ (times.map (excess c (times.sum / times.length))).sum := by
    apply List.sum_nonneg
    intro y hy
    obtain ⟨x, hx, rfl⟩ := List.mem_map.mp hy
    exact excess_nonneg _ hc (hpos x hx)
  exact le_add_of_nonneg_right (div_nonneg hexcess (length_cast_pos hne).le)

theorem mean_of_equal {x : α} (hne : times ≠ []) (h : ∀ y ∈ times, y = x) :
    times.sum / times.length = x := by
  have hreplicate := List.eq_replicate_of_mem h
  have hlength := (length_cast_pos hne).ne'
  have hsum : times.sum = times.length * x := by
    conv_lhs => rw [hreplicate]
    rw [List.sum_replicate, nsmul_eq_mul]
  rw [hsum, mul_div_cancel_left₀ x hlength]

/-- They agree exactly for equal times. -/
theorem mean_rates_eq_iff (hne : times ≠ []) (hpos : ∀ x ∈ times, 0 < x) {c : α} (hc : 0 < c) :
    (times.map (c / ·)).sum / times.length = c / (times.sum / times.length) ↔
      ∀ x ∈ times, ∀ y ∈ times, x = y := by
  rw [mean_rates_eq c hne hpos, add_eq_left, div_eq_zero_iff,
    or_iff_left (length_cast_pos hne).ne']
  constructor
  · intro h
    have hall : ∀ x ∈ times, x = times.sum / times.length := by
      intro x hx
      apply excess_eq_zero hc.ne' (mean_pos hne hpos).ne' (hpos x hx).ne'
      apply List.all_zero_of_le_zero_le_of_sum_eq_zero ?_ h (List.mem_map_of_mem hx)
      intro y hy
      obtain ⟨z, hz, rfl⟩ := List.mem_map.mp hy
      exact excess_nonneg _ hc.le (hpos z hz)
    intro x hx y hy
    rw [hall x hx, hall y hy]
  · intro h
    apply List.sum_eq_zero
    intro y hy
    obtain ⟨x, hx, rfl⟩ := List.mem_map.mp hy
    rw [mean_of_equal hne fun z hz => h z hz x hx]
    exact excess_self c x

end Rates

end ProtobufKafkaBench.Means

import ProtobufKafkaBench.Medians
import Mathlib.Order.Bounds.Basic
import Mathlib.Data.Rat.Floor

/-!
Order statistics by index and by rank. The element of the sorted list at an
index is the same for every order of the values and grows with the index. It is
the smallest value that a given number of values do not exceed, for every such
number between the index and the next one.
-/
namespace ProtobufKafkaBench.NearestRanks

open Medians

variable {α : Type*} [LinearOrder α] {values other : List α}

section OrderStatistics

/-- `sorted(values)[index]`, counted from zero. -/
def orderStatistic (values : List α) (index : ℕ) : Option α := (sortedValues values)[index]?

theorem sortedValues_eq_of_perm (h : values.Perm other) :
    sortedValues values = sortedValues other := by
  apply List.Perm.eq_of_pairwise' (sortedValues_pairwise values) (sortedValues_pairwise other)
  exact (sortedValues_perm values).trans (h.trans (sortedValues_perm other).symm)

theorem orderStatistic_perm (h : values.Perm other) (index : ℕ) :
    orderStatistic values index = orderStatistic other index := by
  unfold orderStatistic
  rw [sortedValues_eq_of_perm h]

theorem orderStatistic_isSome {index : ℕ} (h : index < values.length) :
    ∃ value, orderStatistic values index = some value := by
  have hlength : index < (sortedValues values).length := by rwa [sortedValues_length]
  exact ⟨_, List.getElem?_eq_getElem hlength⟩

theorem orderStatistic_mono {i j : ℕ} (hij : i ≤ j) {x y : α}
    (hx : orderStatistic values i = some x) (hy : orderStatistic values j = some y) : x ≤ y := by
  obtain ⟨hi, rfl⟩ := List.getElem?_eq_some_iff.mp hx
  obtain ⟨hj, rfl⟩ := List.getElem?_eq_some_iff.mp hy
  rcases hij.eq_or_lt with heq | hlt
  · subst heq
    exact le_rfl
  · exact List.pairwise_iff_getElem.mp (sortedValues_pairwise values) i j hi hj hlt

/-- The value at an index is at most `x` when more values than that are. -/
theorem orderStatistic_le_iff {index : ℕ} {value : α}
    (h : orderStatistic values index = some value) (x : α) :
    value ≤ x ↔ index < values.countP (· ≤ x) := by
  obtain ⟨hindex, rfl⟩ := List.getElem?_eq_some_iff.mp h
  have hdown : ∀ y z, y ≤ z → decide (z ≤ x) = true → decide (y ≤ x) = true := by
    intro y z hyz hz
    exact decide_eq_true (hyz.trans (of_decide_eq_true hz))
  have hcount := getElem_iff_lt_countP (sortedValues_pairwise values) hdown hindex
  rw [(sortedValues_perm values).countP_eq] at hcount
  simpa using hcount

theorem orderStatistic_mem {index : ℕ} {value : α}
    (h : orderStatistic values index = some value) : value ∈ values := by
  obtain ⟨hindex, rfl⟩ := List.getElem?_eq_some_iff.mp h
  exact (sortedValues_perm values).mem_iff.mp (List.getElem_mem hindex)

end OrderStatistics

section Ranks

/-- The smallest of the values that at least `rank` of them do not exceed. -/
def IsNearestRank (values : List α) (rank : ℚ) (value : α) : Prop :=
  IsLeast {x | x ∈ values ∧ rank ≤ (values.countP (· ≤ x) : ℕ)} value

/-- The value at an index has every rank between the index and its successor. -/
theorem orderStatistic_isNearestRank {index : ℕ} {value : α}
    (h : orderStatistic values index = some value) {rank : ℚ} (hlow : (index : ℚ) < rank)
    (hhigh : rank ≤ index + 1) : IsNearestRank values rank value := by
  constructor
  · have hcount : index + 1 ≤ values.countP (· ≤ value) :=
      (orderStatistic_le_iff h value).mp le_rfl
    refine ⟨orderStatistic_mem h, hhigh.trans ?_⟩
    exact_mod_cast hcount
  · intro x hx
    rw [orderStatistic_le_iff h]
    have hlt : (index : ℚ) < (values.countP (· ≤ x) : ℕ) := hlow.trans_le hx.2
    exact_mod_cast hlt

theorem IsNearestRank.unique {rank : ℚ} {x y : α} (hx : IsNearestRank values rank x)
    (hy : IsNearestRank values rank y) : x = y := IsLeast.unique hx hy

end Ranks

section Selection

/-- `std::nth_element`: a permutation with the value of the sorted order at the index. -/
structure NthElement (α : Type*) [LinearOrder α] where
  permute : List α → ℕ → List α
  perm : ∀ values index, (permute values index).Perm values
  nth : ∀ values index, index < values.length →
    (permute values index)[index]? = orderStatistic values index

/-- Sorting the whole list is one way to do it. -/
def NthElement.bySorting : NthElement α where
  permute values _ := sortedValues values
  perm values _ := sortedValues_perm values
  nth _ _ _ := rfl

end Selection

end ProtobufKafkaBench.NearestRanks

import Mathlib.Algebra.Order.Field.Basic
import Mathlib.Data.List.GetD
import Mathlib.Data.List.Sort

/-!
Order statistics and medians of finite lists. An element of the sorted list is
compared with a bound by counting: the i-th is at most x exactly when more than
i values are. The median is half the sum of the two middle elements, which are
the same one in a list of odd length.
-/
namespace ProtobufKafkaBench.Medians

section Sorted

variable {α : Type*} [LinearOrder α]

/-- `sorted(values)`. -/
def sortedValues (values : List α) : List α := values.insertionSort (· ≤ ·)

theorem sortedValues_perm (values : List α) : (sortedValues values).Perm values :=
  List.perm_insertionSort _ values

@[simp] theorem sortedValues_length (values : List α) :
    (sortedValues values).length = values.length := (sortedValues_perm values).length_eq

theorem sortedValues_pairwise (values : List α) : (sortedValues values).Pairwise (· ≤ ·) :=
  List.pairwise_insertionSort _ values

theorem sortedValues_map_monotone {β : Type*} [LinearOrder β] {f : α → β} (hf : Monotone f)
    (values : List α) : sortedValues (values.map f) = (sortedValues values).map f := by
  apply List.Perm.eq_of_pairwise' (sortedValues_pairwise _)
  · rw [List.pairwise_map]
    exact (sortedValues_pairwise values).imp fun h => hf h
  · have hmap := (sortedValues_perm values).map f
    exact (sortedValues_perm _).trans hmap.symm

theorem sortedValues_map_antitone {β : Type*} [LinearOrder β] {f : α → β} (hf : Antitone f)
    (values : List α) :
    sortedValues (values.map f) = ((sortedValues values).map f).reverse := by
  apply List.Perm.eq_of_pairwise' (sortedValues_pairwise _)
  · rw [List.pairwise_reverse, List.pairwise_map]
    exact (sortedValues_pairwise values).imp fun h => hf h
  · have hmap := (sortedValues_perm values).map f
    exact (sortedValues_perm _).trans (hmap.symm.trans (List.reverse_perm _).symm)

/-- Of a property that smaller values inherit, the sorted list has those with it first. -/
theorem getElem_iff_lt_countP {values : List α} (hsorted : values.Pairwise (· ≤ ·))
    {p : α → Bool} (hdown : ∀ x y, x ≤ y → p y = true → p x = true) {i : ℕ}
    (hi : i < values.length) : p values[i] = true ↔ i < values.countP p := by
  induction values generalizing i with
  | nil => simp at hi
  | cons first rest ih =>
    obtain ⟨hfirst, hrest⟩ := List.pairwise_cons.mp hsorted
    by_cases hp : p first = true
    · rw [List.countP_cons_of_pos hp]
      cases i with
      | zero => simp [hp]
      | succ i =>
        rw [List.getElem_cons_succ, ih hrest (by simpa using hi)]
        omega
    · have hnone : rest.countP p = 0 := by
        rw [List.countP_eq_zero]
        exact fun value hvalue hpvalue => hp (hdown _ _ (hfirst value hvalue) hpvalue)
      rw [List.countP_cons_of_neg hp, hnone]
      constructor
      · intro hpi
        cases i with
        | zero => exact absurd hpi hp
        | succ i =>
          have hi' : i < rest.length := by simpa using hi
          have hmem : rest[i] ∈ rest := List.getElem_mem hi'
          exact absurd (hdown _ _ (hfirst _ hmem) hpi) hp
      · intro hlt
        omega

variable [Zero α]

/-- The two middle elements of the sorted list. -/
def lowerMiddle (values : List α) : α := (sortedValues values).getD ((values.length - 1) / 2) 0

def upperMiddle (values : List α) : α := (sortedValues values).getD (values.length / 2) 0

theorem getD_iff_lt_countP {values : List α} {p : α → Bool}
    (hdown : ∀ x y, x ≤ y → p y = true → p x = true) {i : ℕ} (hi : i < values.length) :
    p ((sortedValues values).getD i 0) = true ↔ i < values.countP p := by
  have hlength : i < (sortedValues values).length := by rwa [sortedValues_length]
  rw [List.getD_eq_getElem _ _ hlength, ← (sortedValues_perm values).countP_eq]
  exact getElem_iff_lt_countP (sortedValues_pairwise values) hdown hlength

variable {values : List α} {p : α → Bool}

/-- The lower middle has a property of small values when at least half of them have it. -/
theorem lowerMiddle_iff (hne : values ≠ []) (hdown : ∀ x y, x ≤ y → p y = true → p x = true) :
    p (lowerMiddle values) = true ↔ values.length ≤ 2 * values.countP p := by
  have hlength : 0 < values.length := List.length_pos_iff.mpr hne
  rw [lowerMiddle, getD_iff_lt_countP hdown (by omega)]
  omega

/-- The upper middle has it when more than half of them do. -/
theorem upperMiddle_iff (hne : values ≠ []) (hdown : ∀ x y, x ≤ y → p y = true → p x = true) :
    p (upperMiddle values) = true ↔ values.length < 2 * values.countP p := by
  have hlength : 0 < values.length := List.length_pos_iff.mpr hne
  rw [upperMiddle, getD_iff_lt_countP hdown (by omega)]
  omega

theorem lowerMiddle_le (hne : values ≠ []) {x : α} :
    lowerMiddle values ≤ x ↔ values.length ≤ 2 * values.countP (· ≤ x) := by
  rw [← lowerMiddle_iff hne fun y z hyz hz => by simpa using hyz.trans (by simpa using hz)]
  simp

theorem upperMiddle_le (hne : values ≠ []) {x : α} :
    upperMiddle values ≤ x ↔ values.length < 2 * values.countP (· ≤ x) := by
  rw [← upperMiddle_iff hne fun y z hyz hz => by simpa using hyz.trans (by simpa using hz)]
  simp

theorem lowerMiddle_lt (hne : values ≠ []) {x : α} :
    lowerMiddle values < x ↔ values.length ≤ 2 * values.countP (· < x) := by
  rw [← lowerMiddle_iff hne fun y z hyz hz => by simpa using hyz.trans_lt (by simpa using hz)]
  simp

theorem lowerMiddle_le_upperMiddle (hne : values ≠ []) :
    lowerMiddle values ≤ upperMiddle values := by
  have hupper := (@upperMiddle_le _ _ _ values hne (upperMiddle values)).mp le_rfl
  exact (lowerMiddle_le hne).mpr hupper.le

end Sorted

section Median

variable {α : Type*} [Field α] [LinearOrder α]

/-- `statistics.median`, which has no value for an empty list. -/
def median (values : List α) : Option α :=
  let data := sortedValues values
  if data.length % 2 = 1 then data[data.length / 2]?
  else
    match data[data.length / 2 - 1]?, data[data.length / 2]? with
    | some lower, some upper => some ((lower + upper) / 2)
    | _, _ => none

theorem median_eq [IsStrictOrderedRing α] {values : List α} (hne : values ≠ []) :
    median values = some ((lowerMiddle values + upperMiddle values) / 2) := by
  have hlength : 0 < values.length := List.length_pos_iff.mpr hne
  have hget : ∀ i < values.length,
      (sortedValues values)[i]? = some ((sortedValues values).getD i 0) := by
    intro i hi
    have hi' : i < (sortedValues values).length := by rwa [sortedValues_length]
    rw [List.getElem?_eq_getElem hi', List.getD_eq_getElem _ _ hi']
  unfold median lowerMiddle upperMiddle
  simp only [sortedValues_length]
  by_cases hodd : values.length % 2 = 1
  · have hsame : (values.length - 1) / 2 = values.length / 2 := by omega
    rw [if_pos hodd, hget _ (by omega), hsame, add_self_div_two]
  · have hlower : (values.length - 1) / 2 = values.length / 2 - 1 := by omega
    rw [if_neg hodd, hget _ (by omega), hget _ (by omega), hlower]

theorem sortedValues_cast [IsStrictOrderedRing α] (counts : List ℕ) :
    sortedValues (counts.map (Nat.cast : ℕ → α)) =
      (sortedValues counts).map (Nat.cast : ℕ → α) :=
  sortedValues_map_monotone Nat.mono_cast counts

/-- The median of counts is half the sum of two of them. -/
theorem median_cast [IsStrictOrderedRing α] {counts : List ℕ} (hne : counts ≠ []) :
    median (counts.map (Nat.cast : ℕ → α)) =
      some (((lowerMiddle counts + upperMiddle counts : ℕ) : α) / 2) := by
  have hne' : counts.map (Nat.cast : ℕ → α) ≠ [] := by simpa using hne
  have hcast : ∀ i, ((sortedValues counts).map (Nat.cast : ℕ → α)).getD i 0 =
      (((sortedValues counts).getD i 0 : ℕ) : α) := by
    intro i
    have hzero : ((0 : ℕ) : α) = 0 := Nat.cast_zero
    rw [← hzero, List.getD_map]
  rw [median_eq hne']
  unfold lowerMiddle upperMiddle
  rw [sortedValues_cast, hcast, hcast, List.length_map, Nat.cast_add]

end Median

section Quotients

variable {α : Type*} [Field α] [LinearOrder α] [IsStrictOrderedRing α] {values : List α} {c : α}

theorem getD_map_div {β : Type*} [Field β] (values : List β) (i : ℕ) (c : β) :
    (values.map (· / c)).getD i 0 = values.getD i 0 / c := by
  have hzero : (0 : β) = 0 / c := (zero_div c).symm
  conv_lhs => rw [hzero]
  exact List.getD_map _ _ _

/-- A negative divisor turns the sorted list round, which exchanges the two middles. -/
theorem middles_map_div (hne : values ≠ []) (hc : c ≠ 0) :
    lowerMiddle (values.map (· / c)) + upperMiddle (values.map (· / c)) =
      (lowerMiddle values + upperMiddle values) / c := by
  have hlength : 0 < values.length := List.length_pos_iff.mpr hne
  rw [add_div]
  unfold lowerMiddle upperMiddle
  rw [List.length_map]
  rcases lt_or_gt_of_ne hc with hneg | hpos
  · have hanti : Antitone fun x : α => x / c :=
      fun x y hxy => div_le_div_of_nonpos_of_le hneg.le hxy
    have hreverse : ∀ i < values.length, (sortedValues (values.map (· / c))).getD i 0 =
        (sortedValues values).getD (values.length - 1 - i) 0 / c := by
      intro i hi
      rw [sortedValues_map_antitone hanti, List.getD_reverse, List.length_map,
        sortedValues_length, getD_map_div]
      rwa [List.length_map, sortedValues_length]
    have hlower : values.length - 1 - (values.length - 1) / 2 = values.length / 2 := by omega
    have hupper : values.length - 1 - values.length / 2 = (values.length - 1) / 2 := by omega
    rw [hreverse _ (by omega), hreverse _ (by omega), hlower, hupper, add_comm]
  · have hmono : Monotone fun x : α => x / c :=
      fun x y hxy => div_le_div_of_nonneg_right hxy hpos.le
    rw [sortedValues_map_monotone hmono, getD_map_div, getD_map_div]

/-- The median of quotients by one number is the quotient of the median. -/
theorem median_map_div (hne : values ≠ []) (hc : c ≠ 0) :
    median (values.map (· / c)) =
      some ((lowerMiddle values + upperMiddle values) / 2 / c) := by
  have hne' : values.map (· / c) ≠ [] := List.map_eq_nil_iff.not.mpr hne
  rw [median_eq hne', middles_map_div hne hc, div_right_comm]

end Quotients

section Counts

variable {counts : List ℕ}

/-- The median of counts, rounded down. -/
def middleCount (counts : List ℕ) : ℕ := (lowerMiddle counts + upperMiddle counts) / 2

theorem countP_le_add_countP_lt (counts : List ℕ) (x : ℕ) :
    counts.countP (· ≤ x) + counts.countP (x < ·) = counts.length := by
  rw [List.length_eq_countP_add_countP (· ≤ x)]
  simp

/-- It is zero unless more than half of the counts are positive or at least half are
greater than one. -/
theorem middleCount_eq_zero_iff (hne : counts ≠ []) :
    middleCount counts = 0 ↔ 2 * counts.countP (0 < ·) ≤ counts.length ∧
      2 * counts.countP (1 < ·) < counts.length := by
  have hlower := @lowerMiddle_le _ _ _ _ hne 0
  have hupper := @upperMiddle_le _ _ _ _ hne 1
  have hle := lowerMiddle_le_upperMiddle hne
  have hzero := countP_le_add_countP_lt counts 0
  have hone := countP_le_add_countP_lt counts 1
  unfold middleCount
  omega

theorem middleCount_zeros (hne : counts ≠ []) (h : ∀ count ∈ counts, count = 0) :
    middleCount counts = 0 := by
  have hnone : ∀ n, counts.countP (n < ·) = 0 := by
    refine fun n => List.countP_eq_zero.mpr fun count hcount => ?_
    rw [h count hcount]
    simp
  have hlength := List.length_pos_iff.mpr hne
  rw [middleCount_eq_zero_iff hne, hnone, hnone]
  omega

/-- It reaches a common bound exactly when less than half of the counts are below it. -/
theorem middleCount_eq_bound_iff (hne : counts ≠ []) {bound : ℕ}
    (hbound : ∀ count ∈ counts, count ≤ bound) :
    middleCount counts = bound ↔ 2 * counts.countP (· < bound) < counts.length := by
  have hlength : 0 < counts.length := List.length_pos_iff.mpr hne
  have hall : counts.countP (· ≤ bound) = counts.length := by
    rw [List.countP_eq_length]
    intro count hcount
    simpa using hbound count hcount
  have hlower := @lowerMiddle_lt _ _ _ _ hne bound
  have hupper := @upperMiddle_le _ _ _ _ hne bound
  have hle := lowerMiddle_le_upperMiddle hne
  rw [hall] at hupper
  unfold middleCount
  omega

end Counts

end ProtobufKafkaBench.Medians

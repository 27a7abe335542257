import ProtobufKafkaBench.AsyncReports
import ProtobufKafkaBench.NearestRanks
import Mathlib.Algebra.Order.Floor.Semifield

/-!
The functions named `percentile`. Those of the reports emulate a ceiling by adding
0.999999 before they cut to an integer; those of the benchmarks take the floor.
In exact arithmetic the reports meet the nearest rank for every fraction in ten
thousandths, and the benchmarks are one place too far where the rank is a whole
number.
-/
namespace ProtobufKafkaBench.Percentiles

open AsyncReports Medians NearestRanks

section Functions

variable {α : Type*} [LinearOrder α]

/-- `values[index]` of a Python list, where a negative index counts from the end. -/
def pyItem (values : List α) (index : ℤ) : Option α :=
  if 0 ≤ index then values[index.toNat]?
  else if -values.length ≤ index then values[(values.length + index).toNat]?
  else none

/-- `int((len(ordered) * fraction + 0.999999) - 1)`. -/
def rawIndex (length : ℕ) (fraction : ℚ) : ℤ :=
  truncate (length * fraction + 999999 / 1000000 - 1)

def KafkaReport.index (length : ℕ) (fraction : ℚ) : ℤ :=
  min (length - 1) (max 0 (rawIndex length fraction))

def KafkaReport.percentile [Zero α] (values : List α) (fraction : ℚ) : Option α :=
  let ordered := sortedValues values
  if ordered.isEmpty then some 0 else pyItem ordered (index ordered.length fraction)

def RepresentationReport.percentile (values : List α) (fraction : ℚ) : Option α :=
  let ordered := sortedValues values
  pyItem ordered (KafkaReport.index ordered.length fraction)

def RegistryReport.index (length : ℕ) (fraction : ℚ) : ℤ :=
  max 0 (min (length - 1) (rawIndex length fraction))

def RegistryReport.percentile (values : List α) (fraction : ℚ) : Option α :=
  let ordered := sortedValues values
  pyItem ordered (index ordered.length fraction)

/-- `std::min(values.size() - 1, static_cast<std::size_t>(values.size() * fraction))`. -/
def floorIndex (length : ℕ) (fraction : ℚ) : ℕ := min (length - 1) ⌊length * fraction⌋₊

/-- The vector is passed by value. -/
def AsyncPipeline.percentile (select : NthElement ℕ) (values : List ℕ) (fraction : ℚ) : ℕ :=
  if values.isEmpty then 0
  else
    let index := floorIndex values.length fraction
    (select.permute values index).getD index 0

/-- The vector is passed by reference and comes back permuted. -/
def Latency.percentile (select : NthElement ℕ) (values : List ℕ) (fraction : ℚ) :
    ℕ × List ℕ :=
  let index := floorIndex values.length fraction
  let values := select.permute values index
  (values.getD index 0, values)

end Functions

section Ranks

variable {α : Type*} [LinearOrder α] {values : List α} {n m : ℕ}

/-- The added 0.999999 falls short of one by less than a ten thousandth. -/
theorem rawIndex_eq (hn : 0 < n) (hm : 0 < m) :
    rawIndex n (m / 10000) = ((n * m - 1) / 10000 : ℕ) := by
  have hpos : 0 < n * m := Nat.mul_pos hn hm
  have hquotient : (n : ℚ) * (m / 10000) + 999999 / 1000000 - 1 =
      ((100 * (n * m) - 1 : ℕ) : ℚ) / (1000000 : ℕ) := by
    rw [Nat.cast_sub (by omega)]
    push_cast
    ring
  rw [rawIndex, hquotient, truncate_div]
  congr 1
  omega

theorem floorIndex_eq (hn : 0 < n) (hlt : m < 10000) :
    floorIndex n (m / 10000) = n * m / 10000 := by
  have hquotient : (n : ℚ) * (m / 10000) = ((n * m : ℕ) : ℚ) / (10000 : ℕ) := by
    push_cast
    ring
  have hbound : n * m ≤ n * 9999 := Nat.mul_le_mul_left n (by omega)
  rw [floorIndex, hquotient, Nat.floor_div_eq_div]
  omega

theorem rank_le (hn : 0 < n) (hm : 0 < m) (hle : m ≤ 10000) : (n * m - 1) / 10000 < n := by
  have hpos : 0 < n * m := Nat.mul_pos hn hm
  have hbound : n * m ≤ n * 10000 := Nat.mul_le_mul_left n hle
  omega

/-- The index is one less than the rank, a ceiling. -/
theorem ceil_rank (hn : 0 < n) (hm : 0 < m) :
    ⌈(n * m : ℚ) / 10000⌉₊ = (n * m - 1) / 10000 + 1 := by
  have hpos : 0 < n * m := Nat.mul_pos hn hm
  rw [Nat.ceil_eq_iff (Nat.succ_ne_zero _), Nat.succ_sub_one, Nat.succ_eq_add_one]
  have hlow : (n * m - 1) / 10000 * 10000 < n * m := by omega
  have hhigh : n * m ≤ ((n * m - 1) / 10000 + 1) * 10000 := by omega
  constructor
  · rw [lt_div_iff₀ (by norm_num)]
    exact_mod_cast hlow
  · rw [div_le_iff₀ (by norm_num)]
    exact_mod_cast hhigh

theorem pyItem_sortedValues (values : List α) (index : ℕ) :
    pyItem (sortedValues values) index = orderStatistic values index := by
  rw [pyItem, if_pos (Int.natCast_nonneg index), Int.toNat_natCast]
  rfl

/-- Neither way of clamping moves an index that is in range. -/
theorem clamped_eq (hn : 0 < n) (hm : 0 < m) (hle : m ≤ 10000) :
    KafkaReport.index n (m / 10000) = ((n * m - 1) / 10000 : ℕ) ∧
      RegistryReport.index n (m / 10000) = ((n * m - 1) / 10000 : ℕ) := by
  have hrank := rank_le hn hm hle
  rw [KafkaReport.index, RegistryReport.index, rawIndex_eq hn hm]
  omega

theorem reports_percentile_eq [Zero α] (hne : values ≠ []) (hm : 0 < m) (hle : m ≤ 10000) :
    KafkaReport.percentile values (m / 10000) =
        orderStatistic values ((values.length * m - 1) / 10000) ∧
      RepresentationReport.percentile values (m / 10000) =
        orderStatistic values ((values.length * m - 1) / 10000) ∧
      RegistryReport.percentile values (m / 10000) =
        orderStatistic values ((values.length * m - 1) / 10000) := by
  have hn : 0 < values.length := List.length_pos_iff.mpr hne
  have hnonempty : (sortedValues values).isEmpty = false := by
    rw [List.isEmpty_eq_false_iff, ← List.length_pos_iff, sortedValues_length]
    exact hn
  obtain ⟨hkafka, hregistry⟩ := clamped_eq hn hm hle
  refine ⟨?_, ?_, ?_⟩
  · simp only [KafkaReport.percentile, hnonempty, Bool.false_eq_true, if_false,
      sortedValues_length, hkafka, pyItem_sortedValues]
  · simp only [RepresentationReport.percentile, sortedValues_length, hkafka, pyItem_sortedValues]
  · simp only [RegistryReport.percentile, sortedValues_length, hregistry, pyItem_sortedValues]

theorem rank_isNearestRank (hne : values ≠ []) (hm : 0 < m) {value : α}
    (h : orderStatistic values ((values.length * m - 1) / 10000) = some value) :
    IsNearestRank values (values.length * (m / 10000)) value := by
  have hn : 0 < values.length := List.length_pos_iff.mpr hne
  have hpos : 0 < values.length * m := Nat.mul_pos hn hm
  have hlow : (values.length * m - 1) / 10000 * 10000 < values.length * m := by omega
  have hhigh : values.length * m ≤ ((values.length * m - 1) / 10000 + 1) * 10000 := by omega
  apply orderStatistic_isNearestRank h
  · rw [← mul_div_assoc, lt_div_iff₀ (by norm_num)]
    exact_mod_cast hlow
  · rw [← mul_div_assoc, div_le_iff₀ (by norm_num)]
    exact_mod_cast hhigh

/-- The three reports return the sample of the exact nearest rank. -/
theorem percentile_exact_nearest_rank [Zero α] (hne : values ≠ []) (hm : 0 < m)
    (hle : m ≤ 10000) :
    ∃ value,
      orderStatistic values (⌈(values.length * m : ℚ) / 10000⌉₊ - 1) = some value ∧
      KafkaReport.percentile values (m / 10000) = some value ∧
      RepresentationReport.percentile values (m / 10000) = some value ∧
      RegistryReport.percentile values (m / 10000) = some value ∧
      (0 ≤ rawIndex values.length (m / 10000) ∧
        rawIndex values.length (m / 10000) ≤ values.length - 1 ∧
        KafkaReport.index values.length (m / 10000) = rawIndex values.length (m / 10000) ∧
        RegistryReport.index values.length (m / 10000) = rawIndex values.length (m / 10000)) ∧
      ∀ m' value', m ≤ m' → m' ≤ 10000 →
        KafkaReport.percentile values (m' / 10000) = some value' ∨
          RepresentationReport.percentile values (m' / 10000) = some value' ∨
          RegistryReport.percentile values (m' / 10000) = some value' → value ≤ value' := by
  have hn : 0 < values.length := List.length_pos_iff.mpr hne
  have hrank := rank_le hn hm hle
  obtain ⟨value, hvalue⟩ := orderStatistic_isSome hrank
  obtain ⟨hkafka, hrepresentation, hregistry⟩ := reports_percentile_eq hne hm hle
  obtain ⟨hclamped, hclamped'⟩ := clamped_eq hn hm hle
  refine ⟨value, ?_, hkafka.trans hvalue, hrepresentation.trans hvalue, hregistry.trans hvalue,
    ?_, ?_⟩
  · rw [ceil_rank hn hm, Nat.add_sub_cancel]
    exact hvalue
  · rw [rawIndex_eq hn hm]
    refine ⟨Int.natCast_nonneg _, by omega, hclamped, hclamped'⟩
  · intro m' value' hmono hle' hresult
    obtain ⟨hkafka', hrepresentation', hregistry'⟩ :=
      reports_percentile_eq hne (hm.trans_le hmono) hle'
    rw [hkafka', hrepresentation', hregistry', or_self, or_self] at hresult
    have hproduct : values.length * m ≤ values.length * m' := Nat.mul_le_mul_left _ hmono
    exact orderStatistic_mono (by omega) hvalue hresult

theorem percentile_exact_nearest_rank_three_samples :
    ∃ value,
      orderStatistic [5, 3, 8] (⌈(([5, 3, 8] : List ℕ).length * (9500 : ℕ) : ℚ) / 10000⌉₊ - 1) =
        some value ∧
      KafkaReport.percentile [5, 3, 8] ((9500 : ℕ) / 10000) = some value ∧
      RepresentationReport.percentile [5, 3, 8] ((9500 : ℕ) / 10000) = some value ∧
      RegistryReport.percentile [5, 3, 8] ((9500 : ℕ) / 10000) = some value := by
  obtain ⟨value, hvalue, hkafka, hrepresentation, hregistry, -⟩ :=
    percentile_exact_nearest_rank (show ([5, 3, 8] : List ℕ) ≠ [] by decide)
      (show 0 < 9500 by decide) (by decide)
  exact ⟨value, hvalue, hkafka, hrepresentation, hregistry⟩

end Ranks

section Benchmarks

variable (select select' : NthElement ℕ) {values : List ℕ} {m : ℕ}

theorem selected_eq (h : floorIndex values.length (m / 10000) < values.length) :
    orderStatistic values (floorIndex values.length (m / 10000)) =
      some ((select.permute values (floorIndex values.length (m / 10000))).getD
        (floorIndex values.length (m / 10000)) 0) := by
  obtain ⟨value, hvalue⟩ := orderStatistic_isSome h
  have hnth := select.nth values _ h
  rw [hvalue] at hnth
  rw [hvalue, List.getD_eq_getElem?_getD, hnth]
  rfl

/-- Both benchmarks take the sample behind the floor of the rank. -/
theorem benchmarks_percentile_eq (hne : values ≠ []) (hlt : m < 10000) :
    orderStatistic values (values.length * m / 10000) =
        some (AsyncPipeline.percentile select values (m / 10000)) ∧
      orderStatistic values (values.length * m / 10000) =
        some (Latency.percentile select' values (m / 10000)).1 := by
  have hn : 0 < values.length := List.length_pos_iff.mpr hne
  have hnonempty : values.isEmpty = false := List.isEmpty_eq_false_iff.mpr hne
  have hindex := floorIndex_eq hn hlt
  have hbound : values.length * m ≤ values.length * 9999 := Nat.mul_le_mul_left _ (by omega)
  have hrange : floorIndex values.length (m / 10000) < values.length := by omega
  rw [← hindex]
  constructor
  · rw [selected_eq select hrange, AsyncPipeline.percentile, hnonempty]
    rfl
  · exact selected_eq select' hrange

/-- The benchmarks agree with the reports, on the nearest rank, unless the rank is a
whole number and the next sample is a different one. -/
theorem percentiles_agree_iff (hne : values ≠ []) (hm : 0 < m) (hlt : m < 10000) :
    (KafkaReport.percentile values (m / 10000) =
        some (AsyncPipeline.percentile select values (m / 10000)) ∧
      KafkaReport.percentile values (m / 10000) =
        some (Latency.percentile select' values (m / 10000)).1 ∧
      IsNearestRank values (values.length * (m / 10000))
        (AsyncPipeline.percentile select values (m / 10000))) ↔
    (10000 ∣ values.length * m →
      orderStatistic values (values.length * m / 10000 - 1) =
        orderStatistic values (values.length * m / 10000)) := by
  have hn : 0 < values.length := List.length_pos_iff.mpr hne
  have hpos : 0 < values.length * m := Nat.mul_pos hn hm
  obtain ⟨hkafka, -, -⟩ := reports_percentile_eq hne hm hlt.le
  obtain ⟨hasync, hlatency⟩ := benchmarks_percentile_eq select select' hne hlt
  rw [hkafka, ← hasync, ← hlatency]
  constructor
  · intro h hdvd
    have hindex : (values.length * m - 1) / 10000 = values.length * m / 10000 - 1 := by omega
    rw [← hindex]
    exact h.1
  · intro h
    have hsame : orderStatistic values ((values.length * m - 1) / 10000) =
        orderStatistic values (values.length * m / 10000) := by
      by_cases hdvd : 10000 ∣ values.length * m
      · have hindex : (values.length * m - 1) / 10000 = values.length * m / 10000 - 1 := by omega
        rw [hindex]
        exact h hdvd
      · have hindex : (values.length * m - 1) / 10000 = values.length * m / 10000 := by omega
        rw [hindex]
    refine ⟨hsame, hsame, rank_isNearestRank hne hm ?_⟩
    rw [hsame]
    exact hasync

theorem percentiles_agree_iff_three_samples :
    (KafkaReport.percentile [3, 5, 8] ((5000 : ℕ) / 10000) =
        some (AsyncPipeline.percentile .bySorting [3, 5, 8] ((5000 : ℕ) / 10000)) ∧
      KafkaReport.percentile [3, 5, 8] ((5000 : ℕ) / 10000) =
        some (Latency.percentile .bySorting [3, 5, 8] ((5000 : ℕ) / 10000)).1 ∧
      IsNearestRank [3, 5, 8] (([3, 5, 8] : List ℕ).length * ((5000 : ℕ) / 10000))
        (AsyncPipeline.percentile .bySorting [3, 5, 8] ((5000 : ℕ) / 10000))) ↔
    (10000 ∣ ([3, 5, 8] : List ℕ).length * 5000 →
      orderStatistic [3, 5, 8] (([3, 5, 8] : List ℕ).length * 5000 / 10000 - 1) =
        orderStatistic [3, 5, 8] (([3, 5, 8] : List ℕ).length * 5000 / 10000)) :=
  percentiles_agree_iff .bySorting .bySorting (by decide) (by decide) (by decide)

/-- Half of two samples is one sample, so the reports take the first and the benchmarks
the second. -/
theorem twoSamples_percentiles_differ :
    KafkaReport.percentile [1, 2] (5000 / 10000) = some 1 ∧
      AsyncPipeline.percentile .bySorting [1, 2] (5000 / 10000) = 2 ∧
      (Latency.percentile .bySorting [1, 2] (5000 / 10000)).1 = 2 := by
  decide +kernel

end Benchmarks

end ProtobufKafkaBench.Percentiles

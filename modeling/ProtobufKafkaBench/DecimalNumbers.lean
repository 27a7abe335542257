import ProtobufKafkaBench.CommandLine
import Mathlib.Algebra.Field.Rat
import Mathlib.Data.List.TakeWhile

/-!
The numbers that digits and decimal texts write. Digits after the point count by
their number, so the same digits behind more zeros write a smaller number.
-/
namespace ProtobufKafkaBench.DecimalNumbers

open ByteBuffers CommandLine

section Digits

theorem digitsValue_append (first second : Bytes) :
    digitsValue (first ++ second) =
      digitsValue first * 10 ^ second.length + digitsValue second := by
  unfold digitsValue
  rw [List.foldl_append]
  generalize first.foldl _ 0 = start
  induction second using List.reverseRecOn with
  | nil => simp
  | append_singleton second digit ih =>
    simp only [List.foldl_append, List.foldl_cons, List.foldl_nil, ih, List.length_append,
      List.length_singleton, pow_succ]
    ring

theorem digitsValue_zeros (count : ℕ) : digitsValue (List.replicate count 48) = 0 := by
  induction count with
  | zero => rfl
  | succ count ih =>
    rw [List.replicate_succ', digitsValue_append, ih, zero_mul, zero_add]
    rfl

theorem isDigit_decimalDigits {n : ℕ} {byte : UInt8} (h : byte ∈ decimalDigits n) :
    isDigit byte = true := by
  obtain ⟨hlow, hhigh⟩ := decimalDigits_range h
  rw [isDigit, decide_eq_true_eq, UInt8.le_iff_toNat_le, UInt8.le_iff_toNat_le]
  exact ⟨hlow, hhigh⟩

theorem digitsValue_digits {digits : List ℕ} (h : ∀ digit ∈ digits, digit < 10) :
    digitsValue (digits.reverse.map fun digit => UInt8.ofNat (48 + digit)) =
      Nat.ofDigits 10 digits := by
  induction digits with
  | nil => rfl
  | cons digit rest ih =>
    have hlt := h digit List.mem_cons_self
    have hlast : digitsValue [UInt8.ofNat (48 + digit)] = digit := by
      rw [digitsValue, List.foldl_cons, List.foldl_nil, UInt8.toNat_ofNat',
        Nat.mod_eq_of_lt (by omega)]
      omega
    rw [List.reverse_cons, List.map_append, digitsValue_append,
      ih fun other hother => h other (List.mem_cons_of_mem digit hother), Nat.ofDigits_cons,
      List.map_singleton, hlast, List.length_singleton]
    ring

/-- The digits of a number write it. -/
theorem digitsValue_decimalDigits (n : ℕ) : digitsValue (decimalDigits n) = n := by
  unfold decimalDigits
  by_cases hzero : n = 0
  · rw [if_pos hzero, hzero]
    rfl
  · rw [if_neg hzero, digitsValue_digits fun digit hdigit => Nat.digits_lt_base (by decide) hdigit,
      Nat.ofDigits_digits]

/-- A rendered number is a numeral. -/
theorem numeral_decimalDigits (n : ℕ) : numeral (decimalDigits n) = some ([], n) := by
  have hdigits : (decimalDigits n).takeWhile isDigit = decimalDigits n :=
    List.takeWhile_eq_self_iff.mpr fun byte => isDigit_decimalDigits
  have hspace : (decimalDigits n).dropWhile isSpace = decimalDigits n := by
    obtain ⟨byte, rest, heq⟩ := List.exists_cons_of_ne_nil (decimalDigits_ne_nil n)
    have hrange := decimalDigits_range (heq ▸ List.mem_cons_self : byte ∈ decimalDigits n)
    have hbyte : isSpace byte = false := by
      rw [isSpace, decide_eq_false_iff_not, ← UInt8.toNat_inj, UInt8.le_iff_toNat_le,
        UInt8.le_iff_toNat_le]
      simp only [UInt8.reduceToNat]
      omega
    rw [heq, List.dropWhile_cons, hbyte]
    rfl
  refine numeral_unsigned_iff.mpr ⟨?_, ?_⟩
  · rw [hspace, hdigits]
    exact decimalDigits_ne_nil n
  · rw [hspace, hdigits]
    exact digitsValue_decimalDigits n

/-- A rendered number is read back if it fits. -/
theorem stoull_decimalDigits {n : ℕ} {value : BitVec 64}
    (h : stoull (decimalDigits n) = .ok value) :
    value.toNat = n := by
  obtain ⟨sign, m, hnumeral, hm, hvalue⟩ := stoull_eq_ok_iff.mp h
  rw [numeral_decimalDigits] at hnumeral
  obtain ⟨rfl, rfl⟩ := Prod.mk.inj (Option.some.inj hnumeral)
  rw [hvalue, if_neg (List.cons_ne_nil _ _).symm, BitVec.toNat_ofNat]
  exact Nat.mod_eq_of_lt hm

end Digits

section Decimals

/-- The number that digits, a point and digits write. -/
def decimalNumber (text : Bytes) : Option ℚ :=
  let whole := text.takeWhile isDigit
  match text.drop whole.length with
  | 46 :: fraction =>
    if whole ≠ [] ∧ fraction ≠ [] ∧ fraction.all isDigit then
      some ((digitsValue whole : ℚ) + digitsValue fraction / 10 ^ fraction.length)
    else none
  | _ => none

theorem decimalNumber_point {whole fraction : Bytes} (hwhole : whole ≠ [])
    (hdigits : ∀ byte ∈ whole, isDigit byte = true) (hfraction : fraction ≠ [])
    (hdigits' : ∀ byte ∈ fraction, isDigit byte = true) :
    decimalNumber (whole ++ 46 :: fraction) =
      some ((digitsValue whole : ℚ) + digitsValue fraction / 10 ^ fraction.length) := by
  have htake : (whole ++ 46 :: fraction).takeWhile isDigit = whole := by
    rw [List.takeWhile_append_of_pos hdigits, List.takeWhile_cons_of_neg (by decide),
      List.append_nil]
  rw [decimalNumber, htake, List.drop_left]
  simp only
  rw [if_pos ⟨hwhole, hfraction, List.all_eq_true.mpr hdigits'⟩]

/-- A number with zeros in front of it, after the point. -/
theorem decimalNumber_zeros {whole : Bytes} (hwhole : whole ≠ [])
    (hdigits : ∀ byte ∈ whole, isDigit byte = true) (zeros n : ℕ) :
    decimalNumber (whole ++ 46 :: (List.replicate zeros 48 ++ decimalDigits n)) =
      some ((digitsValue whole : ℚ) + n / 10 ^ (zeros + (decimalDigits n).length)) := by
  rw [decimalNumber_point hwhole hdigits]
  · rw [digitsValue_append, digitsValue_zeros, zero_mul, zero_add, digitsValue_decimalDigits,
      List.length_append, List.length_replicate]
  · exact List.append_ne_nil_of_right_ne_nil _ (decimalDigits_ne_nil n)
  · intro byte hbyte
    obtain hzero | hdigit := List.mem_append.mp hbyte
    · rw [(List.mem_replicate.mp hzero).2]
      decide
    · exact isDigit_decimalDigits hdigit

end Decimals

end ProtobufKafkaBench.DecimalNumbers

import Mathlib.Data.List.TakeDrop
import Mathlib.Data.Nat.Digits.Lemmas

/-!
Byte buffers of a fixed size with checked writes, and decimal text. A write
that would leave the buffer has no result, so a program over these buffers is
defined exactly when none of its writes overruns. A buffer filled up to a
position with a known text can be extended by the next write.
-/
namespace ProtobufKafkaBench.ByteBuffers

abbrev Bytes := List UInt8

/-- The bytes of an ASCII literal. -/
def ascii (literal : String) : Bytes := literal.toList.map fun c => UInt8.ofNat c.toNat

/-- `capacity` bytes of memory; the length is part of the type's meaning. -/
structure ByteBuffer (capacity : ℕ) where
  bytes : Bytes
  length_eq : bytes.length = capacity

namespace ByteBuffer

variable {capacity : ℕ}

def zeros (capacity : ℕ) : ByteBuffer capacity := ⟨List.replicate capacity 0, by simp⟩

/-- Overwrite from `position` on; no result when the data would not fit. -/
def write (buffer : ByteBuffer capacity) (position : ℕ) (data : Bytes) :
    Option (ByteBuffer capacity) :=
  if h : position + data.length ≤ capacity then
    some ⟨buffer.bytes.take position ++ data ++ buffer.bytes.drop (position + data.length), by
      have hlength := buffer.length_eq
      simp only [List.length_append, List.length_take, List.length_drop]
      omega⟩
  else none

/-- The first `position` bytes are `text`, which is all that was written so far. -/
def Filled (buffer : ByteBuffer capacity) (position : ℕ) (text : Bytes) : Prop :=
  position = text.length ∧ buffer.bytes.take position = text

theorem filled_zero (buffer : ByteBuffer capacity) : buffer.Filled 0 [] := ⟨rfl, rfl⟩

/-- Writing at the end of what is filled appends to it. -/
theorem Filled.write {buffer : ByteBuffer capacity} {position : ℕ} {text : Bytes}
    (h : buffer.Filled position text) (data : Bytes)
    (hfits : position + data.length ≤ capacity) :
    ∃ after, buffer.write position data = some after ∧
      after.Filled (position + data.length) (text ++ data) := by
  obtain ⟨hposition, htake⟩ := h
  have hlength := buffer.length_eq
  refine ⟨_, dif_pos hfits, by simp [hposition], ?_⟩
  have hstart : (buffer.bytes.take position ++ data).length = position + data.length := by
    simp only [List.length_append, List.length_take]
    omega
  change (buffer.bytes.take position ++ data ++ _).take (position + data.length) = text ++ data
  rw [← hstart, List.take_left, htake]

theorem bytes_of_take {buffer : ByteBuffer capacity} {text : Bytes}
    (h : buffer.bytes.take capacity = text) : buffer.bytes = text := by
  have hlength := buffer.length_eq
  rw [← h, List.take_of_length_le (by omega)]

end ByteBuffer

section DecimalText

/-- The decimal digits of a number as ASCII bytes, without leading zeros. -/
def decimalDigits (n : ℕ) : Bytes :=
  if n = 0 then [48] else (Nat.digits 10 n).reverse.map fun digit => UInt8.ofNat (48 + digit)

/-- The shortest decimal rendering of an integer, with a minus sign when negative. -/
def decimalText : ℤ → Bytes
  | .ofNat n => decimalDigits n
  | .negSucc n => 45 :: decimalDigits (n + 1)

theorem decimalDigits_length_le_iff {n k : ℕ} (hk : 0 < k) :
    (decimalDigits n).length ≤ k ↔ n < 10 ^ k := by
  unfold decimalDigits
  by_cases hzero : n = 0
  · rw [if_pos hzero, hzero]
    have hpow : 0 < 10 ^ k := by positivity
    simp only [List.length_singleton, hpow, iff_true]
    exact hk
  · rw [if_neg hzero, List.length_map, List.length_reverse]
    exact Nat.digits_length_le_iff (by norm_num) n

theorem decimalDigits_length_le {n k : ℕ} (hk : 0 < k) (hn : n < 10 ^ k) :
    (decimalDigits n).length ≤ k := (decimalDigits_length_le_iff hk).mpr hn

theorem decimalDigits_ne_nil (n : ℕ) : decimalDigits n ≠ [] := by
  unfold decimalDigits
  by_cases hzero : n = 0
  · rw [if_pos hzero]
    exact List.cons_ne_nil _ _
  · rw [if_neg hzero, Ne, List.map_eq_nil_iff, List.reverse_eq_nil_iff,
      Nat.digits_eq_nil_iff_eq_zero]
    exact hzero

theorem decimalText_length_le {z : ℤ} {k : ℕ} (hk : 0 < k) (hz : z.natAbs < 10 ^ k) :
    (decimalText z).length ≤ k + 1 := by
  cases z with
  | ofNat n => exact (decimalDigits_length_le hk hz).trans (Nat.le_succ k)
  | negSucc n =>
    simp only [decimalText, List.length_cons]
    exact Nat.succ_le_succ (decimalDigits_length_le hk hz)

theorem decimalDigits_range {n : ℕ} {byte : UInt8} (h : byte ∈ decimalDigits n) :
    48 ≤ byte.toNat ∧ byte.toNat ≤ 57 := by
  unfold decimalDigits at h
  split at h
  · obtain rfl := List.mem_singleton.mp h
    simp
  · obtain ⟨digit, hdigit, rfl⟩ := List.mem_map.mp h
    have hlt : digit < 10 := Nat.digits_lt_base (by norm_num) (List.mem_reverse.mp hdigit)
    rw [UInt8.toNat_ofNat_of_lt' (by simp only [UInt8.size]; omega)]
    omega

/-- Decimal text is made of digits and a minus sign. -/
theorem decimalText_range {z : ℤ} {byte : UInt8} (h : byte ∈ decimalText z) :
    byte.toNat = 45 ∨ 48 ≤ byte.toNat ∧ byte.toNat ≤ 57 := by
  cases z with
  | ofNat n => exact Or.inr (decimalDigits_range h)
  | negSucc n =>
    rcases List.mem_cons.mp h with rfl | hdigit
    · exact Or.inl rfl
    · exact Or.inr (decimalDigits_range hdigit)

end DecimalText

end ProtobufKafkaBench.ByteBuffers

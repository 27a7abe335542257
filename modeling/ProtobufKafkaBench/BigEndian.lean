import ProtobufKafkaBench.ByteBuffers

/-!
Numbers as a fixed number of bytes, most significant first. Writing keeps the
number modulo the range of the width, and reading gives it back. The last section
reads the bytes in the other order.
-/
namespace ProtobufKafkaBench.BigEndian

open ByteBuffers

def bigEndian : ℕ → ℕ → Bytes
  | 0, _ => []
  | width + 1, n => UInt8.ofNat (n / 256 ^ width) :: bigEndian width n

/-- Reading with the value `high` of the bytes before. -/
def readFrom (high : ℕ) (bytes : Bytes) : ℕ :=
  bytes.foldl (fun value byte => value * 256 + byte.toNat) high

def readBigEndian (bytes : Bytes) : ℕ := readFrom 0 bytes

theorem readFrom_cons (high : ℕ) (byte : UInt8) (rest : Bytes) :
    readFrom high (byte :: rest) = readFrom (high * 256 + byte.toNat) rest := rfl

theorem readFrom_bigEndian (high width n : ℕ) :
    readFrom high (bigEndian width n) = high * 256 ^ width + n % 256 ^ width := by
  induction width generalizing high with
  | zero =>
    rw [pow_zero, Nat.mod_one, mul_one]
    rfl
  | succ width ih =>
    have hbyte : (UInt8.ofNat (n / 256 ^ width)).toNat = n / 256 ^ width % 256 := by
      rw [UInt8.toNat_ofNat']
    rw [bigEndian, readFrom_cons, ih, hbyte, Nat.mod_pow_succ, pow_succ]
    ring

theorem readBigEndian_bigEndian {width n : ℕ} (hn : n < 256 ^ width) :
    readBigEndian (bigEndian width n) = n := by
  rw [readBigEndian, readFrom_bigEndian, zero_mul, zero_add, Nat.mod_eq_of_lt hn]

section LittleEndian

/-- Least significant byte first. -/
def readLittleEndian (bytes : Bytes) : ℕ := readBigEndian bytes.reverse

theorem bigEndian_eq_range (width n : ℕ) :
    bigEndian width n = ((List.range width).map fun i => UInt8.ofNat (n / 256 ^ i)).reverse := by
  induction width with
  | zero => rfl
  | succ width ih => simp [bigEndian, ih, List.range_succ]

/-- A number byte by byte, with zeros up to a larger width. -/
theorem readLittleEndian_range {width n : ℕ} (hn : n < 256 ^ width) (zeros : ℕ) :
    readLittleEndian (((List.range width).map fun i => UInt8.ofNat (n / 256 ^ i)) ++
      List.replicate zeros 0) = n := by
  have hzeros : readFrom 0 (List.replicate zeros 0) = 0 := by
    induction zeros with
    | zero => rfl
    | succ zeros ih => simpa [List.replicate_succ, readFrom_cons] using ih
  have hsplit : readLittleEndian (((List.range width).map fun i => UInt8.ofNat (n / 256 ^ i)) ++
      List.replicate zeros 0) = readFrom (readFrom 0 (List.replicate zeros 0))
        (bigEndian width n) := by
    simp only [readLittleEndian, readBigEndian, readFrom, bigEndian_eq_range,
      List.reverse_append, List.reverse_replicate, List.foldl_append]
  rw [hsplit, hzeros]
  exact readBigEndian_bigEndian hn

end LittleEndian

end ProtobufKafkaBench.BigEndian

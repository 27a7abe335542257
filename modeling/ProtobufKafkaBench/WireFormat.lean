import ProtobufKafkaBench.ByteBuffers

/-!
The proto3 wire format for messages of text and int64 fields, and the message
runtime as a parameter. A message is given by its fields in increasing field
number; a field holding its default value takes no bytes. A runtime may fail to
serialize, but what it does write is its one encoding of the fields, whose
length is the standard size.
-/
namespace ProtobufKafkaBench.WireFormat

open ByteBuffers

inductive FieldValue
  | text (bytes : Bytes)
  | int64 (value : Int64)

/-- A field number with the value the message holds for it. -/
abbrev Field := ℕ × FieldValue

section Encoding

/-- Base-128 digits, least significant first, with a continuation bit on all but the last. -/
def varint (n : ℕ) : Bytes :=
  if n < 128 then [UInt8.ofNat n]
  else UInt8.ofNat (n % 128 + 128) :: varint (n / 128)
termination_by n

def encodeField : Field → Bytes
  | (number, .text bytes) =>
      if bytes = [] then []
      else varint (number * 8 + 2) ++ varint bytes.length ++ bytes
  | (number, .int64 value) =>
      if value = 0 then [] else varint (number * 8) ++ varint value.toUInt64.toNat

def encode (message : List Field) : Bytes := message.flatMap encodeField

/-- The number of bytes `encode` takes, which is what `ByteSizeLong` computes. -/
def byteSizeLong (message : List Field) : ℕ := (encode message).length

theorem varint_length_le (k n : ℕ) (hn : n < 128 ^ (k + 1)) : (varint n).length ≤ k + 1 := by
  induction k generalizing n with
  | zero =>
    unfold varint
    rw [if_pos (by simpa using hn)]
    simp
  | succ k ih =>
    unfold varint
    split
    · simp
    · have hdiv : n / 128 < 128 ^ (k + 1) := by
        rw [Nat.div_lt_iff_lt_mul (by norm_num)]
        rwa [pow_succ] at hn
      simpa using ih (n / 128) hdiv

theorem byteSizeLong_nil : byteSizeLong [] = 0 := rfl

theorem byteSizeLong_cons (field : Field) (rest : List Field) :
    byteSizeLong (field :: rest) = (encodeField field).length + byteSizeLong rest := by
  simp [byteSizeLong, encode]

/-- A field with a small number and at most 31 bytes of text, or an integer. -/
def SmallField : Field → Prop
  | (number, .text bytes) => number < 256 ∧ bytes.length < 32
  | (number, .int64 _) => number < 256

theorem encodeField_length_le {field : Field} (h : SmallField field) :
    (encodeField field).length ≤ 34 := by
  obtain ⟨number, value⟩ := field
  cases value with
  | text bytes =>
    obtain ⟨hnumber, hbytes⟩ := h
    have htag := varint_length_le 1 (number * 8 + 2) (by omega)
    have hsize := varint_length_le 0 bytes.length (by omega)
    simp only [encodeField]
    split
    · simp
    · simp only [List.length_append]
      omega
  | int64 value =>
    have hnumber : number < 256 := h
    have htag := varint_length_le 1 (number * 8) (by omega)
    have hvalue := varint_length_le 9 value.toUInt64.toNat
      (lt_trans value.toUInt64.toNat_lt (by norm_num))
    simp only [encodeField]
    split
    · simp
    · simp only [List.length_append]
      omega

theorem byteSizeLong_le {message : List Field} (h : ∀ field ∈ message, SmallField field) :
    byteSizeLong message ≤ 34 * message.length := by
  induction message with
  | nil => simp [byteSizeLong_nil]
  | cons field rest ih =>
    have hfield := encodeField_length_le (h field (List.mem_cons_self ..))
    have hrest := ih fun f hf => h f (List.mem_cons_of_mem field hf)
    rw [byteSizeLong_cons, List.length_cons]
    omega

end Encoding

/-- What the message library does when asked to serialize: whether it succeeds and
the bytes it has stored at the given address, or in the given string, by then. -/
structure Runtime where
  wire : List Field → Bytes
  wire_length : ∀ message, (wire message).length = byteSizeLong message
  serializeToArray : List Field → ℤ → Bool × Bytes
  array_bytes : ∀ message size, (serializeToArray message size).1 = true →
    (serializeToArray message size).2 = wire message
  array_length : ∀ message size, (serializeToArray message size).2.length ≤ size.toNat
  serializeToString : List Field → Bool × Bytes
  string_bytes : ∀ message, (serializeToString message).1 = true →
    (serializeToString message).2 = wire message

/-- `static_cast<int>` of a 64-bit size. -/
def toCInt (size : ℕ) : ℤ := (BitVec.ofNat 32 size).toInt

theorem toCInt_of_lt {size : ℕ} (h : size < 2 ^ 31) : toCInt size = size := by
  unfold toCInt
  rw [BitVec.toInt_eq_toNat_of_lt]
  · rw [BitVec.toNat_ofNat, Nat.mod_eq_of_lt (by omega)]
  · rw [BitVec.toNat_ofNat]
    omega

theorem toCInt_toNat_le (size : ℕ) : (toCInt size).toNat ≤ size := by
  have hmod : size % 2 ^ 32 ≤ size := Nat.mod_le size _
  unfold toCInt
  rw [BitVec.toInt_eq_toNat_cond, BitVec.toNat_ofNat]
  split <;> omega

/-- Whatever is written for a size fits into that many bytes, on failure as well. -/
theorem Runtime.array_fits (runtime : Runtime) (message : List Field) (size : ℕ) :
    (runtime.serializeToArray message (toCInt size)).2.length ≤ size :=
  (runtime.array_length message _).trans (toCInt_toNat_le size)

/-- The runtime assumption of the benchmarks: a buffer of exactly the message's
size is always enough. -/
def Runtime.Succeeds (runtime : Runtime) : Prop :=
  ∀ message, byteSizeLong message < 2 ^ 31 →
    (runtime.serializeToArray message (byteSizeLong message)).1 = true

/-- A runtime that writes the standard encoding whenever the buffer is large enough. -/
def Runtime.standard : Runtime where
  wire := encode
  wire_length _ := rfl
  serializeToArray message size :=
    if byteSizeLong message ≤ size.toNat then (true, encode message) else (false, [])
  array_bytes message size h := by
    split at h
    · rename_i hfits
      rw [if_pos hfits]
    · simp at h
  array_length message size := by
    split
    · rename_i hfits
      exact hfits
    · simp
  serializeToString message := (true, encode message)
  string_bytes _ _ := rfl

theorem Runtime.standard_succeeds : Runtime.standard.Succeeds := by
  intro message _
  simp [Runtime.standard]

end ProtobufKafkaBench.WireFormat

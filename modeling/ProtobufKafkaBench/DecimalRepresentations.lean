import ProtobufKafkaBench.BigEndian
import ProtobufKafkaBench.DecimalNumbers
import ProtobufKafkaBench.MarketEvents
import Mathlib.Tactic.Positivity

/-!
The decimals of the representation benchmark as text, as integers at scale 8 and as
a 128-bit coefficient. The integers and the coefficient are one number. The text
puts six zeros before a number of any length, so it is that number only if two
digits follow, as in all messages, or if it ends in zeros alone.
-/
namespace ProtobufKafkaBench.RepresentationBenchmark

open BigEndian ByteBuffers CommandLine DecimalNumbers MarketEvents

section Values

def decimalText (index : BitVec 64) : Bytes :=
  ascii "12345." ++ List.replicate 6 48 ++ decimalDigits (index + 17).toNat

def scaledValue (index : BitVec 64) : BitVec 64 := 1234500000000 + (index + 17)

/-- The loop stores the eight bytes of the value into a string of 16 zeros. -/
def decimal128Bytes (index : BitVec 64) : Bytes :=
  let value := scaledValue index
  (List.range 8).foldl (fun bytes byte =>
    bytes.set byte (UInt8.ofNat (value >>> (byte * 8)).toNat)) (List.replicate 16 0)

end Values

section Messages

structure OneStringTenDecimalScaledSint64 where
  symbol : Bytes
  decimal01 : Int64
  decimal02 : Int64
  decimal03 : Int64
  decimal04 : Int64
  decimal05 : Int64
  decimal06 : Int64
  decimal07 : Int64
  decimal08 : Int64
  decimal09 : Int64
  decimal10 : Int64

structure OneStringTenDecimalFixed64 where
  symbol : Bytes
  decimal01 : BitVec 64
  decimal02 : BitVec 64
  decimal03 : BitVec 64
  decimal04 : BitVec 64
  decimal05 : BitVec 64
  decimal06 : BitVec 64
  decimal07 : BitVec 64
  decimal08 : BitVec 64
  decimal09 : BitVec 64
  decimal10 : BitVec 64

structure OneStringTenDecimalBytes128 where
  symbol : Bytes
  decimal01 : Bytes
  decimal02 : Bytes
  decimal03 : Bytes
  decimal04 : Bytes
  decimal05 : Bytes
  decimal06 : Bytes
  decimal07 : Bytes
  decimal08 : Bytes
  decimal09 : Bytes
  decimal10 : Bytes

def makeStringMessage : OneStringTenDecimal where
  symbol := ascii "BTC-USD"
  decimal01 := decimalText 0
  decimal02 := decimalText 1
  decimal03 := decimalText 2
  decimal04 := decimalText 3
  decimal05 := decimalText 4
  decimal06 := decimalText 5
  decimal07 := decimalText 6
  decimal08 := decimalText 7
  decimal09 := decimalText 8
  decimal10 := decimalText 9

/-- `static_cast<std::int64_t>(scaled_value(index))`. -/
def scaledInt64 (index : BitVec 64) : Int64 := Int64.ofBitVec (scaledValue index)

def makeSintMessage : OneStringTenDecimalScaledSint64 where
  symbol := ascii "BTC-USD"
  decimal01 := scaledInt64 0
  decimal02 := scaledInt64 1
  decimal03 := scaledInt64 2
  decimal04 := scaledInt64 3
  decimal05 := scaledInt64 4
  decimal06 := scaledInt64 5
  decimal07 := scaledInt64 6
  decimal08 := scaledInt64 7
  decimal09 := scaledInt64 8
  decimal10 := scaledInt64 9

def makeFixedMessage : OneStringTenDecimalFixed64 where
  symbol := ascii "BTC-USD"
  decimal01 := scaledValue 0
  decimal02 := scaledValue 1
  decimal03 := scaledValue 2
  decimal04 := scaledValue 3
  decimal05 := scaledValue 4
  decimal06 := scaledValue 5
  decimal07 := scaledValue 6
  decimal08 := scaledValue 7
  decimal09 := scaledValue 8
  decimal10 := scaledValue 9

def makeBytesMessage : OneStringTenDecimalBytes128 where
  symbol := ascii "BTC-USD"
  decimal01 := decimal128Bytes 0
  decimal02 := decimal128Bytes 1
  decimal03 := decimal128Bytes 2
  decimal04 := decimal128Bytes 3
  decimal05 := decimal128Bytes 4
  decimal06 := decimal128Bytes 5
  decimal07 := decimal128Bytes 6
  decimal08 := decimal128Bytes 7
  decimal09 := decimal128Bytes 8
  decimal10 := decimal128Bytes 9

end Messages

section Numbers

variable {index : BitVec 64}

/-- The number that an integer at scale 8 stands for. -/
def atScale (n : ℤ) : ℚ := n / 10 ^ 8

/-- The four representations of one decimal, as they are stored. -/
structure Stored where
  text : Bytes
  sint : Int64
  fixed : BitVec 64
  coefficient : Bytes

def stored (index : BitVec 64) : Stored where
  text := decimalText index
  sint := scaledInt64 index
  fixed := scaledValue index
  coefficient := decimal128Bytes index

/-- The integers and the coefficient are the same number. -/
def Stored.ScaledAgree (s : Stored) : Prop :=
  atScale s.sint.toInt = atScale s.fixed.toNat ∧
    atScale (readLittleEndian s.coefficient) = atScale s.fixed.toNat

/-- The text writes that number. -/
def Stored.TextAgrees (s : Stored) : Prop :=
  decimalNumber s.text = some (atScale s.fixed.toNat)

/-- The decimals of the four messages, field by field. -/
def messageDecimals : List Stored :=
  let text := makeStringMessage
  let sint := makeSintMessage
  let fixed := makeFixedMessage
  let bytes := makeBytesMessage
  [⟨text.decimal01, sint.decimal01, fixed.decimal01, bytes.decimal01⟩,
    ⟨text.decimal02, sint.decimal02, fixed.decimal02, bytes.decimal02⟩,
    ⟨text.decimal03, sint.decimal03, fixed.decimal03, bytes.decimal03⟩,
    ⟨text.decimal04, sint.decimal04, fixed.decimal04, bytes.decimal04⟩,
    ⟨text.decimal05, sint.decimal05, fixed.decimal05, bytes.decimal05⟩,
    ⟨text.decimal06, sint.decimal06, fixed.decimal06, bytes.decimal06⟩,
    ⟨text.decimal07, sint.decimal07, fixed.decimal07, bytes.decimal07⟩,
    ⟨text.decimal08, sint.decimal08, fixed.decimal08, bytes.decimal08⟩,
    ⟨text.decimal09, sint.decimal09, fixed.decimal09, bytes.decimal09⟩,
    ⟨text.decimal10, sint.decimal10, fixed.decimal10, bytes.decimal10⟩]

/-- Six zeros and two digits are eight places. -/
def TwoDigits (index : BitVec 64) : Prop :=
  10 ≤ (index + 17).toNat ∧ (index + 17).toNat < 100

/-- Stores at consecutive indices replace the start of a list. -/
theorem foldl_set_range {α : Type} (f : ℕ → α) {values : List α} {count : ℕ}
    (hcount : count ≤ values.length) :
    (List.range count).foldl (fun current i => current.set i (f i)) values =
      (List.range count).map f ++ values.drop count := by
  induction count with
  | zero => simp
  | succ count ih =>
    have hlt : count < values.length := by omega
    have hset : ∀ rest : List α, ((List.range count).map f ++ values[count] :: rest).set count
        (f count) = (List.range count).map f ++ f count :: rest := by
      intro rest
      simp
    simp only [List.range_succ, List.foldl_append, List.foldl_cons, List.foldl_nil,
      ih hlt.le, List.drop_eq_getElem_cons hlt, hset, List.map_append, List.map_cons,
      List.map_nil, List.append_assoc, List.singleton_append]

theorem decimal128Bytes_eq (index : BitVec 64) :
    decimal128Bytes index =
      ((List.range 8).map fun i => UInt8.ofNat ((scaledValue index).toNat / 256 ^ i)) ++
        List.replicate 8 0 := by
  have hbyte : (fun byte => UInt8.ofNat (scaledValue index >>> (byte * 8)).toNat) =
      fun i => UInt8.ofNat ((scaledValue index).toNat / 256 ^ i) := by
    funext i
    have hpow : 2 ^ (i * 8) = 256 ^ i := by
      rw [Nat.mul_comm, pow_mul]
      norm_num
    simp only [BitVec.toNat_ushiftRight, Nat.shiftRight_eq_div_pow, hpow]
  have hlength : 8 ≤ (List.replicate 16 (0 : UInt8)).length := by simp
  simpa [decimal128Bytes, ← hbyte] using
    foldl_set_range (fun byte => UInt8.ofNat (scaledValue index >>> (byte * 8)).toNat) hlength

theorem readLittleEndian_decimal128Bytes (index : BitVec 64) :
    readLittleEndian (decimal128Bytes index) = (scaledValue index).toNat := by
  have hlt := (scaledValue index).isLt
  simpa only [decimal128Bytes_eq] using @readLittleEndian_range 8 _ (by omega) 8

theorem scaledInt64_toInt (h : (scaledValue index).toNat < 2 ^ 63) :
    (scaledInt64 index).toInt = (scaledValue index).toNat := by
  simp only [scaledInt64, Int64.toInt_ofBitVec]
  exact BitVec.toInt_eq_toNat_of_lt (by omega)

theorem scaledAgree_stored (h : (scaledValue index).toNat < 2 ^ 63) :
    (stored index).ScaledAgree := by
  constructor
  · exact congrArg atScale (scaledInt64_toInt h)
  · simp only [stored, readLittleEndian_decimal128Bytes]

theorem decimalNumber_decimalText (index : BitVec 64) :
    decimalNumber (decimalText index) = some ((12345 : ℚ) +
      ((index + 17).toNat : ℚ) / 10 ^ (6 + (decimalDigits (index + 17).toNat).length)) := by
  have hall : (ascii "12345").all isDigit = true := by decide
  have hdigits := List.all_eq_true.mp hall
  have htext := decimalNumber_zeros (by decide) hdigits 6 (index + 17).toNat
  have hvalue : digitsValue (ascii "12345") = 12345 := by decide
  have hpoint : decimalText index =
      ascii "12345" ++ 46 :: (List.replicate 6 48 ++ decimalDigits (index + 17).toNat) := rfl
  rw [hpoint, htext, hvalue]
  rfl

/-- The same digits after the point are the same number if they are as many, or zero. -/
theorem places_eq_iff (n places : ℕ) :
    (n : ℚ) / 10 ^ (6 + places) = (n : ℚ) / 10 ^ 8 ↔ n = 0 ∨ places = 2 := by
  constructor
  · intro h
    by_cases hzero : n = 0
    · exact Or.inl hzero
    · right
      have hne : (n : ℚ) ≠ 0 := Nat.cast_ne_zero.mpr hzero
      have hpow : (10 : ℚ) ^ (6 + places) = 10 ^ 8 := by
        have hcross := (div_eq_div_iff (by positivity) (by positivity)).mp h
        exact (mul_left_cancel₀ hne hcross).symm
      have hexp : 6 + places = 8 := pow_right_injective₀ (by norm_num) (by norm_num) hpow
      omega
  · intro h
    obtain rfl | rfl := h
    · simp
    · rfl

theorem decimalDigits_length_two_iff (n : ℕ) :
    (decimalDigits n).length = 2 ↔ 10 ≤ n ∧ n < 100 := by
  have hone : (decimalDigits n).length ≤ 1 ↔ n < 10 := decimalDigits_length_le_iff (by omega)
  have htwo : (decimalDigits n).length ≤ 2 ↔ n < 100 := decimalDigits_length_le_iff (by omega)
  omega

/-- The text is the number of the others exactly if two digits follow its zeros, or only
a zero does. -/
theorem textAgrees_iff (h : (scaledValue index).toNat < 2 ^ 63) :
    (stored index).TextAgrees ↔ index + 17 = 0 ∨ TwoDigits index := by
  have hscaled : (scaledValue index).toNat =
      (1234500000000 + (index + 17).toNat) % 2 ^ 64 := by
    have hbase : (1234500000000 : BitVec 64).toNat = 1234500000000 := by decide
    simp only [scaledValue, BitVec.toNat_add _ (index + 17), hbase]
  have hzero : index + 17 = 0 ↔ (index + 17).toNat = 0 := by
    simp [BitVec.toNat_eq]
  have hlt := (index + 17).isLt
  simp only [Stored.TextAgrees, stored, decimalNumber_decimalText, Option.some.injEq, hzero,
    TwoDigits, ← decimalDigits_length_two_iff]
  generalize (index + 17).toNat = n at hscaled hlt
  by_cases hwrap : 1234500000000 + n < 2 ^ 64
  · have hvalue : atScale (scaledValue index).toNat = 12345 + (n : ℚ) / 10 ^ 8 := by
      rw [hscaled, Nat.mod_eq_of_lt hwrap]
      push_cast [atScale]
      ring
    rw [hvalue, add_right_inj, places_eq_iff]
  · -- The addition wraps, so the integer is below the whole part of the text.
    have hbelow : (scaledValue index).toNat < 1234500000000 := by omega
    have hless : atScale (scaledValue index).toNat < 12345 := by
      have hcast : ((scaledValue index).toNat : ℚ) < 1234500000000 := by exact_mod_cast hbelow
      simp only [atScale, Int.cast_natCast]
      linarith
    have hnonneg : (0 : ℚ) ≤ (n : ℚ) / 10 ^ (6 + (decimalDigits n).length) := by positivity
    have hmany := decimalDigits_length_two_iff n
    constructor
    · intro heq
      linarith
    · intro hcases
      omega

theorem messageDecimals_eq :
    messageDecimals = (List.range 10).map fun i => stored (BitVec.ofNat 64 i) := rfl

theorem indices_fit : ∀ i < 10, (scaledValue (BitVec.ofNat 64 i)).toNat < 2 ^ 63 ∧
    TwoDigits (BitVec.ofNat 64 i) := by
  simp only [TwoDigits]
  decide

/-- For every index whose integer fits 63 bits, the stored integers and the coefficient are
one number, and the text is that number exactly if two digits or only a zero follow its
zeros. All ten decimals of the messages are such texts. -/
theorem decimal_representations :
    (∀ index : BitVec 64, (scaledValue index).toNat < 2 ^ 63 →
      (stored index).ScaledAgree ∧
        ((stored index).TextAgrees ↔ index + 17 = 0 ∨ TwoDigits index)) ∧
    ∀ decimal ∈ messageDecimals, decimal.ScaledAgree ∧ decimal.TextAgrees := by
  constructor
  · intro index h
    exact ⟨scaledAgree_stored h, textAgrees_iff h⟩
  · intro decimal hdecimal
    obtain ⟨i, hi, rfl⟩ := List.mem_map.mp (messageDecimals_eq ▸ hdecimal)
    obtain ⟨hfits, hdigits⟩ := indices_fit i (List.mem_range.mp hi)
    exact ⟨scaledAgree_stored hfits, (textAgrees_iff hfits).mpr (Or.inr hdigits)⟩

/-- Three digits follow the zeros of index 83. -/
theorem eightyThree_text_differs :
    (scaledValue 83).toNat < 2 ^ 63 ∧ ¬ (stored 83).TextAgrees := by
  have hfits : (scaledValue 83).toNat < 2 ^ 63 := by decide
  refine ⟨hfits, ?_⟩
  rw [textAgrees_iff hfits]
  simp only [TwoDigits]
  decide

end Numbers

end ProtobufKafkaBench.RepresentationBenchmark

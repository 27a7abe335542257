import ProtobufKafkaBench.WireFormat
import Mathlib.Data.List.TakeWhile

/-!
Market events and the messages built from them. An event keeps its texts in
fixed arrays of 32 bytes; `copy_text` is the only way they are filled, so each
array ends its text with a NUL. A message holds one value for each field of its
definition in market.proto, and is read back in increasing field number.
-/
namespace ProtobufKafkaBench.MarketEvents

open ByteBuffers WireFormat

def kTextCapacity : ℕ := 32
def kOutputCapacity : ℕ := 8192
def kLogCapacity : ℕ := 4096

section Text

/-- `char[kTextCapacity]` holding a C string. -/
structure Text where
  chars : Bytes
  length_eq : chars.length = kTextCapacity
  terminated : 0 ∈ chars

/-- The C string at the start of the array: what `strlen` and the setters see. -/
def Text.cstr (text : Text) : Bytes := text.chars.takeWhile (· ≠ 0)

theorem Text.cstr_length_lt (text : Text) : text.cstr.length < kTextCapacity := by
  rw [← text.length_eq]
  refine lt_of_le_of_ne (List.takeWhile_prefix _).length_le fun hlength => ?_
  have heq : text.cstr = text.chars := (List.takeWhile_prefix _).eq_of_length hlength
  have hzero := text.terminated
  rw [← heq] at hzero
  simpa using List.mem_takeWhile_imp hzero

/-- Clear the array, then copy at most 31 bytes, so that a NUL remains. -/
def copyText (value : Bytes) : Text where
  chars :=
    let length := if value.length < kTextCapacity - 1 then value.length else kTextCapacity - 1
    value.take length ++ List.replicate (kTextCapacity - length) 0
  length_eq := by
    simp only [List.length_append, List.length_take, List.length_replicate]
    split <;> simp only [kTextCapacity] at * <;> omega
  terminated := by
    refine List.mem_append.mpr (Or.inr (List.mem_replicate.mpr ⟨?_, rfl⟩))
    split <;> simp only [kTextCapacity] at * <;> omega

/-- A text of up to 31 bytes without NUL is kept as it is. -/
theorem cstr_copyText {value : Bytes} (hlength : value.length < kTextCapacity)
    (hnul : (0 : UInt8) ∉ value) : (copyText value).cstr = value := by
  have htake : (if value.length < kTextCapacity - 1 then value.length else kTextCapacity - 1) =
      value.length := by
    split <;> omega
  have hall : value.takeWhile (· ≠ 0) = value := by
    rw [List.takeWhile_eq_self_iff]
    intro byte hbyte
    simpa using fun heq : byte = 0 => hnul (heq ▸ hbyte)
  have hpos : 0 < kTextCapacity - value.length := by omega
  obtain ⟨n, hn⟩ := Nat.exists_eq_succ_of_ne_zero hpos.ne'
  simp only [Text.cstr, copyText, htake, List.take_length, hn, List.replicate_succ]
  rw [List.takeWhile_append, if_pos (by rw [hall])]
  simp

end Text

section Events

structure IntEvent where
  symbol : Text
  values : Fin 10 → Int64

structure DecimalEvent where
  symbol : Text
  decimals : Fin 10 → Text

structure WideEvent where
  fields : Fin 60 → Text

def decimal (index : ℕ) : Bytes :=
  ascii "12345." ++ List.replicate (8 + index % 7) 48 ++ decimalDigits (index + 17)

def makeIntEvent : IntEvent where
  symbol := copyText (ascii "BTC-USD")
  values i := Int64.ofNat (1000001 + i.val)

def makeDecimalEvent : DecimalEvent where
  symbol := copyText (ascii "BTC-USD")
  decimals i := copyText (decimal i.val)

def makeWideEvent : WideEvent where
  fields i :=
    if i.val < 10 then copyText (ascii "SYMBOL_" ++ decimalDigits (i.val + 1))
    else copyText (decimal (i.val - 10))

end Events

section Messages

structure OneStringTenInt64 where
  symbol : Bytes
  value01 : Int64
  value02 : Int64
  value03 : Int64
  value04 : Int64
  value05 : Int64
  value06 : Int64
  value07 : Int64
  value08 : Int64
  value09 : Int64
  value10 : Int64

structure OneStringTenDecimal where
  symbol : Bytes
  decimal01 : Bytes
  decimal02 : Bytes
  decimal03 : Bytes
  decimal04 : Bytes
  decimal05 : Bytes
  decimal06 : Bytes
  decimal07 : Bytes
  decimal08 : Bytes
  decimal09 : Bytes
  decimal10 : Bytes

structure TenStringFiftyDecimal where
  symbol01 : Bytes
  symbol02 : Bytes
  symbol03 : Bytes
  symbol04 : Bytes
  symbol05 : Bytes
  symbol06 : Bytes
  symbol07 : Bytes
  symbol08 : Bytes
  symbol09 : Bytes
  symbol10 : Bytes
  decimal01 : Bytes
  decimal02 : Bytes
  decimal03 : Bytes
  decimal04 : Bytes
  decimal05 : Bytes
  decimal06 : Bytes
  decimal07 : Bytes
  decimal08 : Bytes
  decimal09 : Bytes
  decimal10 : Bytes
  decimal11 : Bytes
  decimal12 : Bytes
  decimal13 : Bytes
  decimal14 : Bytes
  decimal15 : Bytes
  decimal16 : Bytes
  decimal17 : Bytes
  decimal18 : Bytes
  decimal19 : Bytes
  decimal20 : Bytes
  decimal21 : Bytes
  decimal22 : Bytes
  decimal23 : Bytes
  decimal24 : Bytes
  decimal25 : Bytes
  decimal26 : Bytes
  decimal27 : Bytes
  decimal28 : Bytes
  decimal29 : Bytes
  decimal30 : Bytes
  decimal31 : Bytes
  decimal32 : Bytes
  decimal33 : Bytes
  decimal34 : Bytes
  decimal35 : Bytes
  decimal36 : Bytes
  decimal37 : Bytes
  decimal38 : Bytes
  decimal39 : Bytes
  decimal40 : Bytes
  decimal41 : Bytes
  decimal42 : Bytes
  decimal43 : Bytes
  decimal44 : Bytes
  decimal45 : Bytes
  decimal46 : Bytes
  decimal47 : Bytes
  decimal48 : Bytes
  decimal49 : Bytes
  decimal50 : Bytes

/-- The values of a message in increasing field number. -/
def OneStringTenInt64.fields (message : OneStringTenInt64) : List Field :=
  [(1, .text message.symbol), (2, .int64 message.value01),
   (3, .int64 message.value02), (4, .int64 message.value03),
   (5, .int64 message.value04), (6, .int64 message.value05),
   (7, .int64 message.value06), (8, .int64 message.value07),
   (9, .int64 message.value08), (10, .int64 message.value09),
   (11, .int64 message.value10)]

def OneStringTenDecimal.fields (message : OneStringTenDecimal) : List Field :=
  [(1, .text message.symbol), (2, .text message.decimal01),
   (3, .text message.decimal02), (4, .text message.decimal03),
   (5, .text message.decimal04), (6, .text message.decimal05),
   (7, .text message.decimal06), (8, .text message.decimal07),
   (9, .text message.decimal08), (10, .text message.decimal09),
   (11, .text message.decimal10)]

def TenStringFiftyDecimal.fields (message : TenStringFiftyDecimal) : List Field :=
  [(1, .text message.symbol01), (2, .text message.symbol02),
   (3, .text message.symbol03), (4, .text message.symbol04),
   (5, .text message.symbol05), (6, .text message.symbol06),
   (7, .text message.symbol07), (8, .text message.symbol08),
   (9, .text message.symbol09), (10, .text message.symbol10),
   (11, .text message.decimal01), (12, .text message.decimal02),
   (13, .text message.decimal03), (14, .text message.decimal04),
   (15, .text message.decimal05), (16, .text message.decimal06),
   (17, .text message.decimal07), (18, .text message.decimal08),
   (19, .text message.decimal09), (20, .text message.decimal10),
   (21, .text message.decimal11), (22, .text message.decimal12),
   (23, .text message.decimal13), (24, .text message.decimal14),
   (25, .text message.decimal15), (26, .text message.decimal16),
   (27, .text message.decimal17), (28, .text message.decimal18),
   (29, .text message.decimal19), (30, .text message.decimal20),
   (31, .text message.decimal21), (32, .text message.decimal22),
   (33, .text message.decimal23), (34, .text message.decimal24),
   (35, .text message.decimal25), (36, .text message.decimal26),
   (37, .text message.decimal27), (38, .text message.decimal28),
   (39, .text message.decimal29), (40, .text message.decimal30),
   (41, .text message.decimal31), (42, .text message.decimal32),
   (43, .text message.decimal33), (44, .text message.decimal34),
   (45, .text message.decimal35), (46, .text message.decimal36),
   (47, .text message.decimal37), (48, .text message.decimal38),
   (49, .text message.decimal39), (50, .text message.decimal40),
   (51, .text message.decimal41), (52, .text message.decimal42),
   (53, .text message.decimal43), (54, .text message.decimal44),
   (55, .text message.decimal45), (56, .text message.decimal46),
   (57, .text message.decimal47), (58, .text message.decimal48),
   (59, .text message.decimal49), (60, .text message.decimal50)]

/-- A default-constructed message: empty texts and zeros. -/
def OneStringTenInt64.default : OneStringTenInt64 :=
  ⟨[], 0, 0, 0, 0, 0, 0, 0, 0, 0, 0⟩

def OneStringTenDecimal.default : OneStringTenDecimal :=
  ⟨[], [], [], [], [], [], [], [], [], [], []⟩

def TenStringFiftyDecimal.default : TenStringFiftyDecimal :=
  ⟨[], [], [], [], [], [], [], [], [], [], [], [], [], [], [], [], [], [], [], [],
   [], [], [], [], [], [], [], [], [], [], [], [], [], [], [], [], [], [], [], [],
   [], [], [], [], [], [], [], [], [], [], [], [], [], [], [], [], [], [], [], []⟩

end Messages

end ProtobufKafkaBench.MarketEvents

import ProtobufKafkaBench.WireFormat

/-!
Reading proto3 messages. Nothing here is a function of the benchmarks, which only write: `decode`
is what the proto3 specification says of any reader. The wire is read record by record, a field
number with a payload, and a descriptor then says what the payloads are values of. A field that
does not come takes its default, the last one counts where it comes more than once, and a record
that the descriptor does not know is passed over. So a message may be read by another version of
its descriptor than it was written by. Groups, which proto3 no longer has, are refused.
-/
namespace ProtobufKafkaBench.ProtoReaders

open ByteBuffers WireFormat

section Records

/-- A number of at most `limit` bytes, least significant first. -/
def readVarint : ℕ → Bytes → Option (ℕ × Bytes)
  | 0, _ => none
  | _ + 1, [] => none
  | limit + 1, b :: rest =>
    if b < 128 then some (b.toNat, rest)
    else (readVarint limit rest).map fun (high, after) => (b.toNat - 128 + 128 * high, after)

inductive Payload
  | varint (n : ℕ)
  | fixed64 (bytes : Bytes)
  | delimited (bytes : Bytes)
  | fixed32 (bytes : Bytes)

/-- A field number with what stands under it. -/
abbrev Record := ℕ × Payload

def takeBytes (count : ℕ) (input : Bytes) : Option (Bytes × Bytes) :=
  if count ≤ input.length then some (input.take count, input.drop count) else none

/-- Lengths are read as 32-bit numbers without a sign bit. Groups are not read. -/
def readPayload (wireType : ℕ) (input : Bytes) : Option (Payload × Bytes) :=
  match wireType with
  | 0 => (readVarint 10 input).map fun (n, rest) => (.varint (n % 2 ^ 64), rest)
  | 1 => (takeBytes 8 input).map fun (bytes, rest) => (.fixed64 bytes, rest)
  | 2 => do
    let (count, rest) ← readVarint 5 input
    if count < 2 ^ 31 then
      (takeBytes count rest).map fun (bytes, rest) => (.delimited bytes, rest)
    else none
  | 5 => (takeBytes 4 input).map fun (bytes, rest) => (.fixed32 bytes, rest)
  | _ => none

/-- A tag holds the field number, which is not zero, over three bits for the type. -/
def readRecord (input : Bytes) : Option (Record × Bytes) := do
  let (tag, rest) ← readVarint 5 input
  if tag % 2 ^ 32 / 8 = 0 then none
  else
    let (payload, rest) ← readPayload (tag % 8) rest
    return ((tag % 2 ^ 32 / 8, payload), rest)

/-- At most `count` records. -/
def readRecords : ℕ → Bytes → Option (List Record)
  | _, [] => some []
  | 0, _ :: _ => none
  | count + 1, input => do
    let (record, rest) ← readRecord input
    return record :: (← readRecords count rest)

/-- A record takes a byte at least. -/
def parse (input : Bytes) : Option (List Record) := readRecords input.length input

end Records

section Messages

inductive FieldType
  | text
  | int64
  deriving DecidableEq

abbrev Descriptor := List (ℕ × FieldType)

def FieldType.default : FieldType → FieldValue
  | .text => .text []
  | .int64 => .int64 0

def typeOf : FieldValue → FieldType
  | .text _ => .text
  | .int64 _ => .int64

/-- A payload of another type than the field's is passed over. -/
def FieldType.read : FieldType → Payload → Option FieldValue
  | .text, .delimited bytes => some (.text bytes)
  | .int64, .varint n => some (.int64 (UInt64.ofNat n).toInt64)
  | _, _ => none

def valuesAt (number : ℕ) (type : FieldType) (records : List Record) : List FieldValue :=
  records.filterMap fun record => if record.1 = number then type.read record.2 else none

/-- `validText` is what a reader demands of a text. -/
def validValue (validText : Bytes → Bool) : FieldValue → Bool
  | .text bytes => validText bytes
  | .int64 _ => true

/-- The proto3 specification of a reader. A message with a text that is not valid is refused. -/
def decode (validText : Bytes → Bool) (descriptor : Descriptor) (input : Bytes) :
    Option (List Field) := do
  let records ← parse input
  if descriptor.all fun (number, type) =>
      (valuesAt number type records).all (validValue validText) then
    return descriptor.map fun (number, type) =>
      (number, (valuesAt number type records).getLast?.getD type.default)
  else none

end Messages

section RoundTrip

variable {n limit : ℕ} {field : Field} {message : List Field} {rest : Bytes}

theorem readVarint_varint (hn : n < 128 ^ (limit + 1)) :
    readVarint (limit + 1) (varint n ++ rest) = some (n, rest) := by
  induction limit generalizing n with
  | zero =>
    have hbyte : (UInt8.ofNat n).toNat = n :=
      UInt8.toNat_ofNat_of_lt' (by simp only [UInt8.size]; omega)
    have hlt : UInt8.ofNat n < 128 := by
      rw [UInt8.lt_iff_toNat_lt, hbyte]
      simpa using hn
    unfold varint
    rw [if_pos (by simpa using hn), List.singleton_append, readVarint, if_pos hlt, hbyte]
  | succ limit ih =>
    unfold varint
    by_cases hsmall : n < 128
    · have hbyte : (UInt8.ofNat n).toNat = n :=
        UInt8.toNat_ofNat_of_lt' (by simp only [UInt8.size]; omega)
      have hlt : UInt8.ofNat n < 128 := by
        rw [UInt8.lt_iff_toNat_lt, hbyte]
        exact hsmall
      rw [if_pos hsmall, List.singleton_append, readVarint, if_pos hlt, hbyte]
    · have hbyte : (UInt8.ofNat (n % 128 + 128)).toNat = n % 128 + 128 :=
        UInt8.toNat_ofNat_of_lt' (by simp only [UInt8.size]; omega)
      have hge : ¬ UInt8.ofNat (n % 128 + 128) < 128 := by
        rw [UInt8.lt_iff_toNat_lt, hbyte]
        change ¬ n % 128 + 128 < 128
        omega
      have hhigh : n / 128 < 128 ^ (limit + 1) := by
        rw [pow_succ] at hn
        exact Nat.div_lt_of_lt_mul (by rwa [mul_comm] at hn)
      have hnumber : n % 128 + 128 - 128 + 128 * (n / 128) = n := by omega
      rw [if_neg hsmall, List.cons_append, readVarint, if_neg hge, ih hhigh, hbyte]
      exact congrArg (fun value => some (value, rest)) hnumber

theorem takeBytes_append (bytes rest : Bytes) :
    takeBytes bytes.length (bytes ++ rest) = some (bytes, rest) := by
  have hle : bytes.length ≤ (bytes ++ rest).length := by simp
  rw [takeBytes, if_pos hle, List.take_left, List.drop_left]

/-- A field that can be written and read: its number fits a tag and its text a length. -/
def Writable : Field → Prop
  | (number, .text bytes) => 0 < number ∧ number < 2 ^ 29 ∧ bytes.length < 2 ^ 31
  | (number, .int64 _) => 0 < number ∧ number < 2 ^ 29

/-- A field with its default value is not written. -/
def isDefault : Field → Bool
  | (_, .text bytes) => bytes = []
  | (_, .int64 value) => value = 0

def recordOf : Field → Record
  | (number, .text bytes) => (number, .delimited bytes)
  | (number, .int64 value) => (number, .varint value.toUInt64.toNat)

theorem encodeField_default (h : isDefault field = true) : encodeField field = [] := by
  obtain ⟨number, value⟩ := field
  cases value <;> exact if_pos (of_decide_eq_true h)

/-- Records are read one by one, each up to where it ends. -/
theorem readRecord_encodeField (hwritable : Writable field) (h : isDefault field = false) :
    readRecord (encodeField field ++ rest) = some (recordOf field, rest) := by
  obtain ⟨number, value⟩ := field
  have htag : ∀ type < 8, number < 2 ^ 29 → number * 8 + type < 128 ^ (4 + 1) := by
    intro type htype hnumber
    norm_num
    omega
  cases value with
  | text bytes =>
    obtain ⟨hpositive, hnumber, hlength⟩ := hwritable
    have hcount : bytes.length < 128 ^ (4 + 1) := by
      norm_num
      omega
    have hfield : encodeField (number, .text bytes) ++ rest =
        varint (number * 8 + 2) ++ (varint bytes.length ++ (bytes ++ rest)) := by
      rw [encodeField, if_neg (of_decide_eq_false h)]
      simp only [List.append_assoc]
    have hwire : (number * 8 + 2) % 8 = 2 := by omega
    have hread : (number * 8 + 2) % 2 ^ 32 / 8 = number := by omega
    rw [hfield, readRecord, readVarint_varint (htag 2 (by omega) hnumber)]
    simp only [Option.bind_eq_bind, Option.bind_some, hwire, hread, readPayload,
      readVarint_varint hcount, hlength, if_true, takeBytes_append, Option.map_some,
      Nat.pos_iff_ne_zero.mp hpositive, if_false]
    rfl
  | int64 value =>
    obtain ⟨hpositive, hnumber⟩ := hwritable
    have hvalue : value.toUInt64.toNat < 128 ^ (9 + 1) :=
      lt_trans value.toUInt64.toNat_lt (by norm_num)
    have hfield : encodeField (number, .int64 value) ++ rest =
        varint (number * 8 + 0) ++ (varint value.toUInt64.toNat ++ rest) := by
      rw [encodeField, if_neg (of_decide_eq_false h), List.append_assoc]
      rfl
    have hwire : (number * 8 + 0) % 8 = 0 := by omega
    have hread : (number * 8 + 0) % 2 ^ 32 / 8 = number := by omega
    have hfits : value.toUInt64.toNat % 2 ^ 64 = value.toUInt64.toNat :=
      Nat.mod_eq_of_lt value.toUInt64.toNat_lt
    rw [hfield, readRecord, readVarint_varint (htag 0 (by omega) hnumber)]
    simp only [Option.bind_eq_bind, Option.bind_some, hwire, hread, readPayload,
      readVarint_varint hvalue, Option.map_some, Nat.pos_iff_ne_zero.mp hpositive, if_false, hfits]
    rfl

theorem encodeField_length_pos (hwritable : Writable field) (h : isDefault field = false) :
    0 < (encodeField field).length := by
  refine List.length_pos_iff.mpr fun hnil => ?_
  have hread : readRecord (encodeField field ++ []) = some (recordOf field, []) :=
    readRecord_encodeField hwritable h
  rw [hnil] at hread
  cases hread

/-- What was written comes back as records, in order, without the default values. -/
theorem parse_encode (hwritable : ∀ field ∈ message, Writable field) :
    parse (encode message) =
      some ((message.filter fun field => !isDefault field).map recordOf) := by
  have hcount : ∀ count, (encode message).length ≤ count →
      readRecords count (encode message) =
        some ((message.filter fun field => !isDefault field).map recordOf) := by
    induction message with
    | nil =>
      intro count _
      cases count <;> rfl
    | cons field message ih =>
      intro count hlength
      obtain ⟨hfield, hmessage⟩ := List.forall_mem_cons.mp hwritable
      have hcons : encode (field :: message) = encodeField field ++ encode message :=
        List.flatMap_cons
      rw [hcons] at hlength ⊢
      cases hdefault : isDefault field with
      | true =>
        rw [encodeField_default hdefault, List.nil_append] at hlength ⊢
        rw [ih hmessage count hlength, List.filter_cons_of_neg (by simp [hdefault])]
      | false =>
        have hread : readRecord (encodeField field ++ encode message) =
            some (recordOf field, encode message) := readRecord_encodeField hfield hdefault
        have hpositive := encodeField_length_pos hfield hdefault
        rw [List.length_append] at hlength
        obtain ⟨b, more, hbytes⟩ := List.exists_cons_of_length_pos hpositive
        obtain ⟨fewer, rfl⟩ : ∃ fewer, count = fewer + 1 := ⟨count - 1, by omega⟩
        rw [List.filter_cons_of_pos (by simp [hdefault]), List.map_cons]
        rw [hbytes, List.cons_append] at hread ⊢
        rw [readRecords, hread]
        · change (readRecords fewer (encode message)).bind _ = _
          rw [ih hmessage fewer (by omega)]
          rfl
        · exact List.cons_ne_nil _ _
  exact hcount _ le_rfl

end RoundTrip

section Versions

variable {number : ℕ} {type : FieldType} {message : List Field} {validText : Bytes → Bool}

/-- The value of a field in the message, or the default if it has no such field. -/
def valueOf (message : List Field) (number : ℕ) (type : FieldType) : FieldValue :=
  (message.lookup number).getD type.default

/-- The records that a message is written as. -/
def recordsOf (message : List Field) : List Record :=
  (message.filter fun field => !isDefault field).map recordOf

theorem read_recordOf {value : FieldValue} (h : typeOf value = type) :
    type.read (recordOf (number, value)).2 = some value := by
  subst h
  cases value with
  | text bytes => rfl
  | int64 value =>
    have hvalue : (UInt64.ofNat value.toUInt64.toNat).toInt64 = value := by
      rw [UInt64.ofNat_toNat, Int64.toInt64_toUInt64]
    exact congrArg (fun v => some (FieldValue.int64 v)) hvalue

theorem default_of_isDefault {value : FieldValue} (h : isDefault (number, value) = true) :
    value = (typeOf value).default := by
  cases value with
  | text bytes => exact congrArg FieldValue.text (of_decide_eq_true h)
  | int64 value => exact congrArg FieldValue.int64 (of_decide_eq_true h)

theorem recordOf_number (field : Field) : (recordOf field).1 = field.1 := by
  obtain ⟨number, value⟩ := field
  cases value <;> rfl

theorem valuesAt_nil (h : number ∉ message.map Prod.fst) :
    valuesAt number type (recordsOf message) = [] := by
  refine List.filterMap_eq_nil_iff.mpr fun record hrecord => if_neg fun heq => h ?_
  obtain ⟨field, hfield, rfl⟩ := List.mem_map.mp hrecord
  rw [recordOf_number] at heq
  exact heq ▸ List.mem_map_of_mem (List.mem_of_mem_filter hfield)

/-- A field is read once, with its value, or not at all if its value is the default. -/
theorem valuesAt_recordsOf (hnodup : (message.map Prod.fst).Nodup)
    (htype : ∀ field ∈ message, field.1 = number → typeOf field.2 = type) :
    ((number, valueOf message number type) ∈ message ∧
      valuesAt number type (recordsOf message) = [valueOf message number type]) ∨
      valuesAt number type (recordsOf message) = [] ∧
        valueOf message number type = type.default := by
  induction message with
  | nil => exact .inr ⟨rfl, rfl⟩
  | cons field message ih =>
    obtain ⟨hfresh, hrest⟩ := List.nodup_cons.mp hnodup
    obtain ⟨hfield, hmessage⟩ := List.forall_mem_cons.mp htype
    obtain ⟨other, value⟩ := field
    by_cases hnumber : other = number
    · subst hnumber
      have hvalue : valueOf ((other, value) :: message) other type = value := by
        simp [valueOf]
      have hothers : valuesAt other type (recordsOf message) = [] := valuesAt_nil hfresh
      cases hdefault : isDefault (other, value) with
      | true =>
        refine .inr ⟨?_, ?_⟩
        · rw [recordsOf, List.filter_cons_of_neg (by simp [hdefault])]
          exact hothers
        · rw [hvalue, ← hfield rfl]
          exact default_of_isDefault hdefault
      | false =>
        rw [hvalue]
        refine .inl ⟨List.mem_cons_self, ?_⟩
        rw [recordsOf, List.filter_cons_of_pos (by simp [hdefault]), List.map_cons,
          valuesAt, List.filterMap_cons, if_pos (recordOf_number _), read_recordOf (hfield rfl)]
        exact congrArg _ hothers
    · have hvalue : valueOf ((other, value) :: message) number type =
          valueOf message number type := by
        have hne : (number == other) = false := beq_false_of_ne (Ne.symm hnumber)
        rw [valueOf, List.lookup_cons, hne]
        rfl
      have hvalues : valuesAt number type (recordsOf ((other, value) :: message)) =
          valuesAt number type (recordsOf message) := by
        unfold recordsOf valuesAt
        by_cases hdefault : isDefault (other, value) = true
        · rw [List.filter_cons_of_neg (by simp [hdefault])]
        · have hskip : (recordOf (other, value)).1 ≠ number := by
            rw [recordOf_number]
            exact hnumber
          rw [List.filter_cons_of_pos (by simpa using hdefault), List.map_cons,
            List.filterMap_cons, if_neg hskip]
      rw [hvalues, hvalue]
      exact (ih hrest hmessage).imp_left fun h => ⟨List.mem_cons_of_mem _ h.1, h.2⟩

/-- A message is read by any descriptor that agrees on the types of the fields it has in common
with the writer's: these come back, and the other fields of the reader are defaults. -/
theorem decode_encode {descriptor : Descriptor} (hnodup : (message.map Prod.fst).Nodup)
    (hwritable : ∀ field ∈ message, Writable field)
    (hvalid : ∀ field ∈ message, validValue validText field.2 = true)
    (htypes : ∀ field ∈ message, ∀ type, (field.1, type) ∈ descriptor → typeOf field.2 = type) :
    decode validText descriptor (encode message) =
      some (descriptor.map fun (number, type) => (number, valueOf message number type)) := by
  have hentry : ∀ entry ∈ descriptor,
      (valuesAt entry.1 entry.2 (recordsOf message)).all (validValue validText) = true ∧
        (valuesAt entry.1 entry.2 (recordsOf message)).getLast?.getD entry.2.default =
          valueOf message entry.1 entry.2 := by
    intro entry hentry
    have hvalues := valuesAt_recordsOf hnodup fun field hfield (heq : field.1 = entry.1) =>
      htypes field hfield entry.2 (heq ▸ hentry)
    rcases hvalues with ⟨hmem, hvalues⟩ | ⟨hvalues, hvalue⟩
    · rw [hvalues, List.all_cons, hvalid _ hmem]
      exact ⟨rfl, rfl⟩
    · rw [hvalues, hvalue]
      exact ⟨rfl, rfl⟩
  have hall : (descriptor.all fun entry =>
      (valuesAt entry.1 entry.2 (recordsOf message)).all (validValue validText)) = true :=
    List.all_eq_true.mpr fun entry h => (hentry entry h).1
  unfold decode
  rw [parse_encode hwritable]
  change (if (descriptor.all fun entry => (valuesAt entry.1 entry.2 (recordsOf message)).all
    (validValue validText)) = true then _ else _) = _
  rw [if_pos hall]
  refine congrArg some (List.map_congr_left fun entry h => ?_)
  exact congrArg (Prod.mk entry.1) (hentry entry h).2

end Versions

end ProtobufKafkaBench.ProtoReaders

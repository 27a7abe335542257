import ProtobufKafkaBench.JsonStrings

/-!
The body with which a schema is registered, as two of the benchmarks write it.
Both encoders lose nothing, so the schema text cannot leave its string. They
differ in what they escape: `json_escape` covers carriage returns and tabs,
which `escape_json` leaves as they are, and neither covers the other control
characters, which JSON does not allow in a string.
-/
namespace ProtobufKafkaBench.RegistrationBodies

open ByteBuffers JsonStrings

section Encoders

/-- The cases of the switch in `json_escape`. -/
def jsonEscapeByte (character : UInt8) : Bytes :=
  if character = 34 then [92, 34]
  else if character = 92 then [92, 92]
  else if character = 10 then [92, 110]
  else if character = 13 then [92, 114]
  else if character = 9 then [92, 116]
  else [character]

def jsonEscape (value : Bytes) : Bytes := value.flatMap jsonEscapeByte

/-- The cases of `escape_json`, which has no carriage return and no tab. -/
def escapeJsonByte (character : UInt8) : Bytes :=
  if character = 92 then [92, 92]
  else if character = 34 then [92, 34]
  else if character = 10 then [92, 110]
  else [character]

def escapeJson (value : Bytes) : Bytes := value.flatMap escapeJsonByte

/-- What both bodies write before and after the escaped schema. -/
def bodyStart : Bytes := ascii "\x7b\"schemaType\":\"PROTOBUF\",\"schema\":\""

def bodyEnd : Bytes := ascii "\"\x7d"

/-- `registration_body` of the schema registry benchmark. -/
def SchemaRegistry.registrationBody (schema : Bytes) : Bytes :=
  bodyStart ++ jsonEscape schema ++ bodyEnd

/-- `registration_body` of the schema evolution benchmark. -/
def SchemaEvolution.registrationBody (schema : Bytes) : Bytes :=
  bodyStart ++ escapeJson schema ++ bodyEnd

end Encoders

section Lossless

theorem jsonEscapeByte_lossless : Lossless jsonEscapeByte := by
  intro byte
  unfold jsonEscapeByte
  by_cases hquote : byte = 34
  · exact Or.inl ⟨34, by simp [unescape, hquote], by rw [if_pos hquote]⟩
  by_cases hbackslash : byte = 92
  · exact Or.inl ⟨92, by simp [unescape, hbackslash], by simp [hbackslash]⟩
  by_cases hnewline : byte = 10
  · exact Or.inl ⟨110, by simp [unescape, hnewline], by simp [hnewline]⟩
  by_cases hreturn : byte = 13
  · exact Or.inl ⟨114, by simp [unescape, hreturn], by simp [hreturn]⟩
  by_cases htab : byte = 9
  · exact Or.inl ⟨116, by simp [unescape, htab], by simp [htab]⟩
  · exact Or.inr ⟨hquote, hbackslash, by simp [hquote, hbackslash, hnewline, hreturn, htab]⟩

theorem escapeJsonByte_lossless : Lossless escapeJsonByte := by
  intro byte
  unfold escapeJsonByte
  by_cases hquote : byte = 34
  · exact Or.inl ⟨34, by simp [unescape, hquote], by simp [hquote]⟩
  by_cases hbackslash : byte = 92
  · exact Or.inl ⟨92, by simp [unescape, hbackslash], by rw [if_pos hbackslash]⟩
  by_cases hnewline : byte = 10
  · exact Or.inl ⟨110, by simp [unescape, hnewline], by simp [hnewline]⟩
  · exact Or.inr ⟨hquote, hbackslash, by simp [hquote, hbackslash, hnewline]⟩

theorem drop_bodyStart (escaped : Bytes) :
    (bodyStart ++ escaped ++ bodyEnd).drop bodyStart.length = escaped ++ 34 :: ascii "\x7d" := by
  rw [List.append_assoc, List.drop_left]
  rfl

/-- Both bodies are an object of two string members. -/
theorem body_eq_members {escape : UInt8 → Bytes}
    (hliteral : (ascii "PROTOBUF").flatMap escape = ascii "PROTOBUF") (schema : Bytes) :
    bodyStart ++ schema.flatMap escape ++ bodyEnd =
      123 :: (member escape (ascii "schemaType") (ascii "PROTOBUF") ++
        44 :: (member escape (ascii "schema") schema ++ [125])) := by
  rw [member, member, hliteral]
  simp [bodyStart, bodyEnd, ascii]

theorem scanObject_body {escape : UInt8 → Bytes} (h : Lossless escape)
    (hliteral : (ascii "PROTOBUF").flatMap escape = ascii "PROTOBUF") (schema : Bytes) :
    scanObject (bodyStart ++ schema.flatMap escape ++ bodyEnd) =
      some [(ascii "schemaType", ascii "PROTOBUF"), (ascii "schema", schema)] := by
  rw [body_eq_members hliteral]
  apply scanObject_two_members h
  · simp [ascii]
  · simp [ascii]

/-- Whatever bytes a schema holds, the string of either body ends at the quote
after the encoded schema and stands for the schema, and the body has the two
members it should have. -/
theorem schema_read_back (schema : Bytes) :
    scanString ((SchemaRegistry.registrationBody schema).drop bodyStart.length) =
      some (schema, ascii "\x7d") ∧
    scanString ((SchemaEvolution.registrationBody schema).drop bodyStart.length) =
      some (schema, ascii "\x7d") ∧
    scanObject (SchemaRegistry.registrationBody schema) =
      some [(ascii "schemaType", ascii "PROTOBUF"), (ascii "schema", schema)] ∧
    scanObject (SchemaEvolution.registrationBody schema) =
      some [(ascii "schemaType", ascii "PROTOBUF"), (ascii "schema", schema)] := by
  refine ⟨?_, ?_, ?_, ?_⟩
  · rw [SchemaRegistry.registrationBody, drop_bodyStart]
    exact scanString_flatMap jsonEscapeByte_lossless schema _
  · rw [SchemaEvolution.registrationBody, drop_bodyStart]
    exact scanString_flatMap escapeJsonByte_lossless schema _
  · exact scanObject_body jsonEscapeByte_lossless rfl schema
  · exact scanObject_body escapeJsonByte_lossless rfl schema

end Lossless

section Grammar

/-- A byte that JSON allows in a string only as an escape that `json_escape` does not write. -/
def Unescapable (byte : UInt8) : Prop := byte.toNat < 32 ∧ byte ≠ 9 ∧ byte ≠ 10 ∧ byte ≠ 13

theorem jsonEscapeByte_stringBody {byte : UInt8} (h : ¬ Unescapable byte) :
    StringBody (jsonEscapeByte byte) := by
  rcases jsonEscapeByte_lossless byte with ⟨letter, hletter, hescape⟩ |
    ⟨hquote, hbackslash, hescape⟩
  · rw [hescape]
    refine ⟨[.escape letter ?_], rfl⟩
    unfold unescape at hletter
    split_ifs at hletter with h1 h2 h3 h4 h5 <;> simp [*]
  · rw [hescape]
    refine ⟨[.unescaped byte ⟨?_, hquote, hbackslash⟩], rfl⟩
    rw [UInt8.le_iff_toNat_le]
    by_contra hlow
    have hlt : byte.toNat < 32 := by simpa using hlow
    apply h
    refine ⟨hlt, ?_, ?_, ?_⟩
    all_goals
      rintro rfl
      simp [jsonEscapeByte] at hescape

/-- What `json_escape` writes is the inside of a JSON string exactly when the
schema has no control character other than tab, newline and carriage return. -/
theorem jsonEscape_stringBody_iff (schema : Bytes) :
    StringBody (jsonEscape schema) ↔ ∀ byte ∈ schema, ¬ Unescapable byte := by
  constructor
  · rintro h byte hbyte ⟨hlow, htab, hnewline, hreturn⟩
    have hescape : jsonEscapeByte byte = [byte] := by
      have hquote : byte ≠ 34 := by rintro rfl; simp at hlow
      have hbackslash : byte ≠ 92 := by rintro rfl; simp at hlow
      simp [jsonEscapeByte, htab, hnewline, hreturn, hquote, hbackslash]
    have hmem : byte ∈ jsonEscape schema :=
      List.mem_flatMap.mpr ⟨byte, hbyte, by rw [hescape]; exact List.mem_singleton_self byte⟩
    have hrange := h.range byte hmem
    omega
  · intro h
    exact StringBody.flatMap fun byte hbyte => jsonEscapeByte_stringBody (h byte hbyte)

/-- A form feed, which is valid UTF-8, goes into the string as it is. -/
theorem formFeed_not_stringBody : ¬ StringBody (jsonEscape [12]) := by
  intro h
  have hrange := h.range 12 (by simp [jsonEscape, jsonEscapeByte])
  simp at hrange

end Grammar

section Agreement

theorem escapeJsonByte_eq {byte : UInt8} (htab : byte ≠ 9) (hreturn : byte ≠ 13) :
    escapeJsonByte byte = jsonEscapeByte byte := by
  by_cases hquote : byte = 34
  · simp [escapeJsonByte, jsonEscapeByte, hquote]
  · simp [escapeJsonByte, jsonEscapeByte, hquote, htab, hreturn]

theorem mem_jsonEscape {byte : UInt8} {schema : Bytes} (h : byte ∈ jsonEscape schema) :
    byte ≠ 9 ∧ byte ≠ 13 := by
  obtain ⟨character, -, hin⟩ := List.mem_flatMap.mp h
  unfold jsonEscapeByte at hin
  split_ifs at hin with h1 h2 h3 h4 h5
  all_goals
    constructor
    all_goals
      rintro rfl
      simp at hin
  · exact h5 hin.symm
  · exact h4 hin.symm

theorem mem_escapeJson {byte : UInt8} {schema : Bytes} (h : byte ∈ schema)
    (hplain : byte = 9 ∨ byte = 13) : byte ∈ escapeJson schema := by
  refine List.mem_flatMap.mpr ⟨byte, h, ?_⟩
  rcases hplain with rfl | rfl <;> simp [escapeJsonByte]

/-- The two benchmarks send the same body exactly for schemas without tabs and
carriage returns. -/
theorem registrationBody_eq_iff (schema : Bytes) :
    SchemaEvolution.registrationBody schema = SchemaRegistry.registrationBody schema ↔
      9 ∉ schema ∧ 13 ∉ schema := by
  have hbody : SchemaEvolution.registrationBody schema = SchemaRegistry.registrationBody schema ↔
      escapeJson schema = jsonEscape schema := by
    simp [SchemaEvolution.registrationBody, SchemaRegistry.registrationBody]
  rw [hbody]
  constructor
  · intro heq
    constructor
    · intro htab
      have hmem := mem_escapeJson htab (Or.inl rfl)
      rw [heq] at hmem
      exact (mem_jsonEscape hmem).1 rfl
    · intro hreturn
      have hmem := mem_escapeJson hreturn (Or.inr rfl)
      rw [heq] at hmem
      exact (mem_jsonEscape hmem).2 rfl
  · intro h
    obtain ⟨htab, hreturn⟩ := h
    apply List.flatMap_congr
    intro byte hbyte
    apply escapeJsonByte_eq
    · exact fun heq => htab (heq ▸ hbyte)
    · exact fun heq => hreturn (heq ▸ hbyte)

/-- An indented line tells the two bodies apart. -/
theorem tab_registrationBody_ne :
    SchemaEvolution.registrationBody (ascii "\tint64 id = 1;") ≠
      SchemaRegistry.registrationBody (ascii "\tint64 id = 1;") := by
  decide

end Agreement

end ProtobufKafkaBench.RegistrationBodies

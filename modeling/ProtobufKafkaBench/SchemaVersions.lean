import ProtobufKafkaBench.ConfluentFraming
import ProtobufKafkaBench.ProtoReaders

/-!
The two versions of the market schema. The second adds a field to one message and leaves all
others as they are, so a reader of either version can read what a writer of either version has put
into a frame: the fields that both versions have come back as they were written, the one that the
writer does not know is empty, and the one that the reader does not know is passed over.
-/
namespace ProtobufKafkaBench.SchemaVersions

open ByteBuffers ProtoReaders SchemaRegistry WireFormat

section Descriptors

inductive MessageType
  | oneStringTenInt64
  | oneStringTenDecimal
  | tenStringFiftyDecimal

inductive Version
  | v1
  | v2
  deriving DecidableEq

/-- Fields of one type with numbers in a row. -/
def numbered (type : FieldType) (first count : ℕ) : Descriptor :=
  (List.range' first count).map fun number => (number, type)

/-- The messages of `market.proto` and `market_v2.proto`, which adds `venue`. -/
def descriptor : Version → MessageType → Descriptor
  | .v1, .oneStringTenInt64 => numbered .text 1 1 ++ numbered .int64 2 10
  | .v2, .oneStringTenInt64 => numbered .text 1 1 ++ numbered .int64 2 10 ++ numbered .text 12 1
  | .v1, .oneStringTenDecimal | .v2, .oneStringTenDecimal => numbered .text 1 11
  | .v1, .tenStringFiftyDecimal | .v2, .tenStringFiftyDecimal => numbered .text 1 60

/-- A message has a value for each field of its descriptor. -/
structure Message (version : Version) (type : MessageType) where
  fields : List Field
  typed : fields.map (fun field => (field.1, typeOf field.2)) = descriptor version type

variable {writer reader : Version} {type : MessageType}

theorem numbered_numbers (fieldType : FieldType) (first count : ℕ) :
    (numbered fieldType first count).map Prod.fst = List.range' first count := by
  rw [numbered, List.map_map]
  exact List.map_id _

theorem descriptor_initial (version : Version) (type : MessageType) :
    descriptor version type <+: descriptor .v2 type := by
  cases version with
  | v1 =>
    cases type with
    | oneStringTenInt64 => exact List.prefix_append _ _
    | oneStringTenDecimal | tenStringFiftyDecimal => exact List.prefix_rfl
  | v2 => exact List.prefix_rfl

/-- The numbers of the second version are counted through from one. -/
theorem numbers_v2 (type : MessageType) :
    ∃ count ≤ 60, (descriptor .v2 type).map Prod.fst = List.range' 1 count := by
  cases type with
  | oneStringTenInt64 => exact ⟨12, by omega, rfl⟩
  | oneStringTenDecimal => exact ⟨11, by omega, numbered_numbers _ _ _⟩
  | tenStringFiftyDecimal => exact ⟨60, by omega, numbered_numbers _ _ _⟩

theorem numbers_nodup (version : Version) (type : MessageType) :
    ((descriptor version type).map Prod.fst).Nodup := by
  obtain ⟨count, -, hnumbers⟩ := numbers_v2 type
  have hv2 : ((descriptor .v2 type).map Prod.fst).Nodup := by
    rw [hnumbers]
    exact List.nodup_range'
  exact hv2.sublist ((descriptor_initial version type).sublist.map Prod.fst)

theorem number_range {version : Version} {entry : ℕ × FieldType}
    (h : entry ∈ descriptor version type) : 0 < entry.1 ∧ entry.1 ≤ 60 := by
  obtain ⟨count, hcount, hnumbers⟩ := numbers_v2 type
  have hmem : entry.1 ∈ (descriptor .v2 type).map Prod.fst :=
    List.mem_map_of_mem ((descriptor_initial version type).subset h)
  rw [hnumbers, List.mem_range'_1] at hmem
  omega

/-- No number changes its type from one version to the other. -/
theorem types_agree {number : ℕ} {first second : FieldType}
    (hfirst : (number, first) ∈ descriptor writer type)
    (hsecond : (number, second) ∈ descriptor reader type) : first = second := by
  have hnodup := numbers_nodup .v2 type
  have hpair := List.inj_on_of_nodup_map hnodup ((descriptor_initial writer type).subset hfirst)
    ((descriptor_initial reader type).subset hsecond) rfl
  exact congrArg Prod.snd hpair

end Descriptors

section Messages

variable {writer reader : Version} {type : MessageType}

theorem Message.mem_descriptor (message : Message writer type) {field : Field}
    (h : field ∈ message.fields) : (field.1, typeOf field.2) ∈ descriptor writer type := by
  rw [← message.typed]
  exact List.mem_map_of_mem h

theorem Message.numbers (message : Message writer type) :
    message.fields.map Prod.fst = (descriptor writer type).map Prod.fst := by
  rw [← message.typed, List.map_map]
  rfl

theorem typeOf_valueOf {fields : List Field} {entry : ℕ × FieldType}
    (h : ∀ field ∈ fields, field.1 = entry.1 → typeOf field.2 = entry.2) :
    typeOf (valueOf fields entry.1 entry.2) = entry.2 := by
  unfold valueOf
  cases hlookup : fields.lookup entry.1 with
  | none => cases entry.2 <;> rfl
  | some value =>
    obtain ⟨before, after, rfl, -⟩ := List.lookup_eq_some_iff.mp hlookup
    exact h _ (List.mem_append_right _ List.mem_cons_self) rfl

/-- The message as a reader of some version has it. -/
def Message.readAs (message : Message writer type) (reader : Version) : Message reader type where
  fields := (descriptor reader type).map fun entry =>
    (entry.1, valueOf message.fields entry.1 entry.2)
  typed := by
    have hentry : ∀ entry ∈ descriptor reader type,
        (entry.1, typeOf (valueOf message.fields entry.1 entry.2)) = id entry := by
      intro entry hentry
      refine Prod.ext rfl (typeOf_valueOf fun field hfield hnumber => ?_)
      have hwritten := message.mem_descriptor hfield
      rw [hnumber] at hwritten
      exact types_agree hwritten hentry
    rw [List.map_map]
    exact (List.map_congr_left hentry).trans (List.map_id _)

theorem lookup_field {fields : List Field} (hnodup : (fields.map Prod.fst).Nodup) {field : Field}
    (h : field ∈ fields) : fields.lookup field.1 = some field.2 := by
  induction fields with
  | nil => cases h
  | cons first rest ih =>
    obtain ⟨hfresh, hrest⟩ := List.nodup_cons.mp hnodup
    rcases List.mem_cons.mp h with rfl | h
    · exact List.lookup_cons_self
    · have hne : field.1 ≠ first.1 := fun heq => hfresh (heq ▸ List.mem_map_of_mem h)
      rw [List.lookup_cons, beq_false_of_ne hne]
      exact ih hrest h

/-- Fields that the reader knows are kept. -/
theorem Message.mem_readAs (message : Message writer type) {field : Field}
    (h : field ∈ message.fields) {fieldType : FieldType}
    (hknown : (field.1, fieldType) ∈ descriptor reader type) :
    field ∈ (message.readAs reader).fields := by
  have hnodup : (message.fields.map Prod.fst).Nodup := by
    rw [message.numbers]
    exact numbers_nodup writer type
  refine List.mem_map.mpr ⟨_, hknown, Prod.ext rfl ?_⟩
  rw [valueOf, lookup_field hnodup h]
  rfl

/-- Fields that the writer did not know are empty. -/
theorem Message.of_mem_readAs (message : Message writer type) {field : Field}
    (h : field ∈ (message.readAs reader).fields) : field ∈ message.fields ∨
      field.1 ∉ message.fields.map Prod.fst ∧ field.2 = (typeOf field.2).default := by
  obtain ⟨entry, hentry, rfl⟩ := List.mem_map.mp h
  unfold valueOf
  cases hlookup : message.fields.lookup entry.1 with
  | none =>
    refine .inr ⟨fun hmem => ?_, by cases entry.2 <;> rfl⟩
    obtain ⟨field, hfield, hnumber⟩ := List.mem_map.mp hmem
    have hne := List.lookup_eq_none_iff.mp hlookup field hfield
    simp [hnumber] at hne
  | some value =>
    obtain ⟨before, after, heq, -⟩ := List.lookup_eq_some_iff.mp hlookup
    refine .inl ?_
    rw [heq]
    exact List.mem_append_right _ List.mem_cons_self

/-- A reader of the writer's version has the message itself. -/
theorem Message.readAs_self (message : Message writer type) :
    (message.readAs writer).fields = message.fields := by
  have hnodup : (message.fields.map Prod.fst).Nodup := by
    rw [message.numbers]
    exact numbers_nodup writer type
  have hfield : ∀ field ∈ message.fields,
      (field.1, valueOf message.fields field.1 (typeOf field.2)) = id field := by
    intro field hfield
    rw [valueOf, lookup_field hnodup hfield]
    rfl
  change (descriptor writer type).map _ = _
  rw [← message.typed, List.map_map]
  exact (List.map_congr_left hfield).trans (List.map_id _)

end Messages

section Frames

variable {writer reader : Version} {type : MessageType}

/-- Texts are valid, and short enough for the wire. -/
def Sendable (validText : Bytes → Bool) (message : Message writer type) : Prop :=
  ∀ number text, (number, FieldValue.text text) ∈ message.fields →
    validText text = true ∧ text.length < 2 ^ 31

theorem Sendable.writable {validText : Bytes → Bool} {message : Message writer type}
    (h : Sendable validText message) : ∀ field ∈ message.fields, Writable field := by
  intro field hfield
  have hrange := number_range (message.mem_descriptor hfield)
  obtain ⟨number, value⟩ := field
  cases value with
  | text text =>
    have hsend := (h number text hfield).2
    exact ⟨hrange.1, by omega, hsend⟩
  | int64 value => exact ⟨hrange.1, by omega⟩

theorem decode_message {validText : Bytes → Bool} {message : Message writer type}
    (h : Sendable validText message) (reader : Version) :
    decode validText (descriptor reader type) (encode message.fields) =
      some (message.readAs reader).fields := by
  have hnodup : (message.fields.map Prod.fst).Nodup := by
    rw [message.numbers]
    exact numbers_nodup writer type
  refine decode_encode hnodup h.writable ?_ fun field hfield fieldType hknown =>
    types_agree (message.mem_descriptor hfield) hknown
  intro field hfield
  obtain ⟨number, value⟩ := field
  cases value with
  | text text => exact (h number text hfield).1
  | int64 value => rfl

/-- Each frame gives its schema ID back and, to a reader of either version, the fields that both
versions have as they were written and no others but empty ones. -/
theorem frames_read_across_versions (runtime : Runtime)
    (hwire : ∀ fields, runtime.wire fields = encode fields) (validText : Bytes → Bool)
    (message : Message writer type) (h : Sendable validText message) (reader : Version)
    (schemaId : UInt32) (api : Api) (buffers : Buffers (byteSizeLong message.fields)) :
    ∃ bytes after, encodeCall runtime message.fields schemaId api buffers = .ok (bytes, after) ∧
      (serializes runtime message.fields api →
        ∃ (payload : Bytes) (received : Message reader type),
          decodeFrame (after.frame api) = some (schemaId, payload) ∧
          decode validText (descriptor reader type) payload = some received.fields ∧
          (∀ field ∈ message.fields, field.1 ∈ (descriptor reader type).map Prod.fst →
            field ∈ received.fields) ∧
          (∀ field ∈ received.fields, field ∈ message.fields ∨
            field.1 ∉ message.fields.map Prod.fst ∧ field.2 = (typeOf field.2).default) ∧
          (reader = writer → received.fields = message.fields)) := by
  obtain ⟨after, hcall, hframe⟩ := encodeCall_ok runtime message.fields schemaId api buffers
  refine ⟨_, after, hcall, fun hserializes => ⟨runtime.wire message.fields, message.readAs reader,
    ?_, ?_, ?_, fun field => message.of_mem_readAs, ?_⟩⟩
  · rw [hframe hserializes]
    exact decodeFrame_prefixBytes schemaId _
  · rw [hwire]
    exact decode_message h reader
  · intro field hfield hknown
    obtain ⟨⟨number, fieldType⟩, hentry, rfl⟩ := List.mem_map.mp hknown
    exact message.mem_readAs hfield hentry
  · intro hsame
    subst hsame
    exact message.readAs_self

/-- A message with a venue. -/
def venueMessage : Message .v2 .oneStringTenInt64 where
  fields := (1, .text (ascii "BTC-USD")) ::
    (List.range' 2 10).map (fun number => (number, .int64 number.toInt64)) ++
      [(12, .text (ascii "XNAS"))]
  typed := rfl

/-- A reader that does not know venues has the symbol. -/
theorem frames_read_across_versions_venue :
    ∃ bytes after, encodeCall Runtime.standard venueMessage.fields 258 .cachedSerializerString
        ⟨ByteBuffer.zeros _, ByteBuffer.zeros _, [], []⟩ = .ok (bytes, after) ∧
      ∃ payload fields, decodeFrame after.framedString = some (258, payload) ∧
        decode (fun text => text.all (· < 128)) (descriptor .v1 .oneStringTenInt64) payload =
          some fields ∧ (1, FieldValue.text (ascii "BTC-USD")) ∈ fields := by
  have hsend : Sendable (fun text => text.all (· < 128)) venueMessage := by
    intro number text htext
    rcases List.mem_append.mp htext with hfirst | hvenue
    · rcases List.mem_cons.mp hfirst with hsymbol | hnumbers
      · cases hsymbol
        exact ⟨rfl, by decide⟩
      · obtain ⟨_, _, hnumber⟩ := List.mem_map.mp hnumbers
        cases hnumber
    · cases List.mem_singleton.mp hvenue
      exact ⟨rfl, by decide⟩
  obtain ⟨bytes, after, hcall, hread⟩ := frames_read_across_versions Runtime.standard (fun _ => rfl)
    (fun text => text.all (· < 128)) venueMessage hsend .v1 258 .cachedSerializerString
    ⟨ByteBuffer.zeros _, ByteBuffer.zeros _, [], []⟩
  obtain ⟨payload, received, hframe, hdecode, hkept, -⟩ := hread rfl
  exact ⟨bytes, after, hcall, payload, received.fields, hframe, hdecode,
    hkept _ List.mem_cons_self List.mem_cons_self⟩

end Frames

end ProtobufKafkaBench.SchemaVersions

import ProtobufKafkaBench.BigEndian
import ProtobufKafkaBench.ProcessEvent

/-!
The four ways in which a serialized message gets its Confluent prefix: in place,
through a payload buffer, through two strings, and inside the asynchronous
pipeline with schema ID 1 written byte by byte. The buffers are reused from call
to call; what a successful call leaves in them does not depend on the calls before.
-/
namespace ProtobufKafkaBench.SchemaRegistry

open ByteBuffers BigEndian WireFormat MarketEvents AsyncPipeline

section Prefix

/-- `prefix`: magic byte 0, big-endian schema ID, and the message index [0]. -/
def prefixBytes (schemaId : UInt32) : Bytes :=
  [0, (schemaId >>> 24).toUInt8, (schemaId >>> 16).toUInt8, (schemaId >>> 8).toUInt8,
    schemaId.toUInt8, 0]

theorem prefixBytes_length (schemaId : UInt32) : (prefixBytes schemaId).length = 6 := rfl

theorem toUInt8_shiftRight (schemaId shift : UInt32) {k : ℕ} (hshift : shift.toNat = 8 * k)
    (hk : k < 4) : (schemaId >>> shift).toUInt8 = UInt8.ofNat (schemaId.toNat / 256 ^ k) := by
  have hpow : 2 ^ (8 * k) = 256 ^ k := pow_mul 2 8 k
  have hsmall : 8 * k % 32 = 8 * k := by omega
  apply UInt8.toNat_inj.mp
  rw [UInt32.toNat_toUInt8, UInt32.toNat_shiftRight, hshift, hsmall,
    Nat.shiftRight_eq_div_pow, hpow, UInt8.toNat_ofNat']

/-- The truncating shifts are the digits of the ID in base 256. -/
theorem prefixBytes_eq (schemaId : UInt32) :
    prefixBytes schemaId = 0 :: (bigEndian 4 schemaId.toNat ++ [0]) := by
  have h3 := @toUInt8_shiftRight schemaId 24 3 rfl (by decide)
  have h2 := @toUInt8_shiftRight schemaId 16 2 rfl (by decide)
  have h1 := @toUInt8_shiftRight schemaId 8 1 rfl (by decide)
  have h0 := @toUInt8_shiftRight schemaId 0 0 rfl (by decide)
  rw [UInt32.shiftRight_zero] at h0
  rw [prefixBytes, h3, h2, h1, h0]
  rfl

/-- Reading a frame back: the schema ID and the payload. -/
def decodeFrame : Bytes → Option (UInt32 × Bytes)
  | 0 :: a :: b :: c :: d :: 0 :: payload =>
    some (UInt32.ofNat (readBigEndian [a, b, c, d]), payload)
  | _ => none

theorem decodeFrame_prefixBytes (schemaId : UInt32) (payload : Bytes) :
    decodeFrame (prefixBytes schemaId ++ payload) = some (schemaId, payload) := by
  have hread : readBigEndian (bigEndian 4 schemaId.toNat) = schemaId.toNat :=
    readBigEndian_bigEndian schemaId.toNat_lt
  have hdecode : decodeFrame (prefixBytes schemaId ++ payload) =
      some (UInt32.ofNat (readBigEndian (bigEndian 4 schemaId.toNat)), payload) := by
    rw [prefixBytes_eq]
    rfl
  rw [hdecode, hread, UInt32.ofNat_toNat]

end Prefix

section Framing

variable {runtime : Runtime} {message : List Field} {schemaId : UInt32}

/-- What the three closures share, for a message of `payloadBytes` bytes. -/
structure Buffers (payloadBytes : ℕ) where
  framed : ByteBuffer (payloadBytes + 6)
  payload : ByteBuffer payloadBytes
  serialized : Bytes
  framedString : Bytes

inductive Api
  | cachedIdFramedInPlace
  | cachedIdFramedWithCopy
  | cachedSerializerString

/-- Where a call leaves its frame. -/
def Buffers.frame {payloadBytes : ℕ} (buffers : Buffers payloadBytes) : Api → Bytes
  | .cachedIdFramedInPlace => buffers.framed.bytes
  | .cachedIdFramedWithCopy => buffers.framed.bytes
  | .cachedSerializerString => buffers.framedString

def cachedIdFramedInPlace (runtime : Runtime) (message : List Field) (header : Bytes)
    (buffers : Buffers (byteSizeLong message)) :
    Except Fault (ℕ × Buffers (byteSizeLong message)) := do
  let framed ← store buffers.framed 0 header
  let written := runtime.serializeToArray message (toCInt (byteSizeLong message))
  let framed ← store framed header.length written.2
  return (if written.1 then framed.bytes.length else 0, { buffers with framed })

def cachedIdFramedWithCopy (runtime : Runtime) (message : List Field) (header : Bytes)
    (buffers : Buffers (byteSizeLong message)) :
    Except Fault (ℕ × Buffers (byteSizeLong message)) := do
  let written := runtime.serializeToArray message (toCInt (byteSizeLong message))
  let payload ← store buffers.payload 0 written.2
  if written.1 then
    let framed ← store buffers.framed 0 header
    let framed ← store framed header.length payload.bytes
    return (framed.bytes.length, { buffers with payload, framed })
  else return (0, { buffers with payload })

/-- Clearing and appending leaves nothing of the string's old contents. -/
def cachedSerializerString (runtime : Runtime) (message : List Field) (header : Bytes)
    (buffers : Buffers (byteSizeLong message)) :
    ℕ × Buffers (byteSizeLong message) :=
  let written := runtime.serializeToString message
  if written.1 then
    let framedString := [] ++ header ++ written.2
    (framedString.length, { buffers with serialized := written.2, framedString })
  else (0, { buffers with serialized := written.2 })

/-- One measured call of `run_framing_for_message`. -/
def encodeCall (runtime : Runtime) (message : List Field) (schemaId : UInt32) (api : Api)
    (buffers : Buffers (byteSizeLong message)) :
    Except Fault (ℕ × Buffers (byteSizeLong message)) :=
  match api with
  | .cachedIdFramedInPlace =>
    cachedIdFramedInPlace runtime message (prefixBytes schemaId) buffers
  | .cachedIdFramedWithCopy =>
    cachedIdFramedWithCopy runtime message (prefixBytes schemaId) buffers
  | .cachedSerializerString =>
    .ok (cachedSerializerString runtime message (prefixBytes schemaId) buffers)

/-- Whether the message library succeeds in the call. -/
def serializes (runtime : Runtime) (message : List Field) : Api → Bool
  | .cachedIdFramedInPlace =>
    (runtime.serializeToArray message (toCInt (byteSizeLong message))).1
  | .cachedIdFramedWithCopy =>
    (runtime.serializeToArray message (toCInt (byteSizeLong message))).1
  | .cachedSerializerString => (runtime.serializeToString message).1

theorem cachedIdFramedInPlace_ok (runtime : Runtime) (message : List Field) {header : Bytes}
    (hheader : header.length = 6) (buffers : Buffers (byteSizeLong message)) :
    ∃ after, cachedIdFramedInPlace runtime message header buffers =
        .ok (if serializes runtime message .cachedIdFramedInPlace then 6 + byteSizeLong message
          else 0, after) ∧
      (serializes runtime message .cachedIdFramedInPlace →
        after.framed.bytes = header ++ runtime.wire message) := by
  have hdata := runtime.array_fits message (byteSizeLong message)
  obtain ⟨first, after, hfirst, hafter, htake⟩ := store_header buffers.framed header
    (runtime.serializeToArray message (toCInt (byteSizeLong message))).2 (by omega)
  refine ⟨{ buffers with framed := after }, ?_, ?_⟩
  · unfold cachedIdFramedInPlace serializes
    simp only [hfirst, hafter, bind, Except.bind, pure, Except.pure, after.length_eq, Nat.add_comm]
  · intro hok
    have hwire := runtime.array_bytes _ _ hok
    rw [hwire, runtime.wire_length, hheader, Nat.add_comm] at htake
    exact ByteBuffer.bytes_of_take htake

theorem cachedIdFramedWithCopy_ok (runtime : Runtime) (message : List Field) {header : Bytes}
    (hheader : header.length = 6) (buffers : Buffers (byteSizeLong message)) :
    ∃ after, cachedIdFramedWithCopy runtime message header buffers =
        .ok (if serializes runtime message .cachedIdFramedWithCopy then 6 + byteSizeLong message
          else 0, after) ∧
      (serializes runtime message .cachedIdFramedWithCopy →
        after.framed.bytes = header ++ runtime.wire message) := by
  have hdata := runtime.array_fits message (byteSizeLong message)
  obtain ⟨payload, hpayload, hfilled⟩ := buffers.payload.filled_zero.write
    (runtime.serializeToArray message (toCInt (byteSizeLong message))).2 (by omega)
  have hstore : store buffers.payload 0
      (runtime.serializeToArray message (toCInt (byteSizeLong message))).2 = .ok payload := by
    rw [store, hpayload]
  by_cases hok : (runtime.serializeToArray message (toCInt (byteSizeLong message))).1 = true
  · have hwire := runtime.array_bytes _ _ hok
    rw [hwire, zero_add, List.nil_append, runtime.wire_length] at hfilled
    have hbytes : payload.bytes = runtime.wire message := ByteBuffer.bytes_of_take hfilled.2
    obtain ⟨first, framed, hfirst, hframed, htake⟩ := store_header buffers.framed
      header payload.bytes (by rw [payload.length_eq]; omega)
    refine ⟨{ buffers with payload := payload, framed := framed }, ?_, ?_⟩
    · unfold cachedIdFramedWithCopy serializes
      simp only [hstore, hok, hfirst, hframed, bind, Except.bind, pure, Except.pure,
        framed.length_eq, Nat.add_comm, if_true]
    · intro _
      rw [payload.length_eq, hheader, Nat.add_comm, hbytes] at htake
      exact ByteBuffer.bytes_of_take htake
  · refine ⟨{ buffers with payload := payload }, ?_, ?_⟩
    · unfold cachedIdFramedWithCopy serializes
      simp only [hstore, hok, bind, Except.bind, pure, Except.pure]
      rfl
    · intro hserializes
      exact absurd hserializes hok

theorem cachedSerializerString_ok (runtime : Runtime) (message : List Field) {header : Bytes}
    (hheader : header.length = 6) (buffers : Buffers (byteSizeLong message)) :
    ∃ after, cachedSerializerString runtime message header buffers =
        (if serializes runtime message .cachedSerializerString then 6 + byteSizeLong message
          else 0, after) ∧
      (serializes runtime message .cachedSerializerString →
        after.framedString = header ++ runtime.wire message) := by
  unfold cachedSerializerString serializes
  by_cases hok : (runtime.serializeToString message).1 = true
  · have hwire := runtime.string_bytes _ hok
    rw [if_pos hok, if_pos hok, hwire]
    refine ⟨_, Prod.ext ?_ rfl, fun _ => List.nil_append _⟩
    show ([] ++ header ++ runtime.wire message).length = 6 + byteSizeLong message
    rw [List.nil_append, List.length_append, hheader, runtime.wire_length]
  · rw [if_neg hok, if_neg hok]
    exact ⟨_, rfl, fun hserializes => absurd hserializes hok⟩

/-- Every call ends within its buffers and returns the frame's size or zero. -/
theorem encodeCall_ok (runtime : Runtime) (message : List Field) (schemaId : UInt32) (api : Api)
    (buffers : Buffers (byteSizeLong message)) :
    ∃ after, encodeCall runtime message schemaId api buffers =
        .ok (if serializes runtime message api then 6 + byteSizeLong message else 0, after) ∧
      (serializes runtime message api →
        after.frame api = prefixBytes schemaId ++ runtime.wire message) := by
  have hheader := prefixBytes_length schemaId
  cases api with
  | cachedIdFramedInPlace => exact cachedIdFramedInPlace_ok runtime message hheader buffers
  | cachedIdFramedWithCopy => exact cachedIdFramedWithCopy_ok runtime message hheader buffers
  | cachedSerializerString =>
    obtain ⟨after, hcall, hframe⟩ := cachedSerializerString_ok runtime message hheader buffers
    exact ⟨after, congrArg Except.ok hcall, hframe⟩

/-- Any calls one after the other. -/
def encodeCalls (runtime : Runtime) (message : List Field) (schemaId : UInt32) (calls : List Api)
    (buffers : Buffers (byteSizeLong message)) :
    Except Fault (Buffers (byteSizeLong message)) :=
  calls.foldlM (fun before api => do
    let (_, after) ← encodeCall runtime message schemaId api before
    return after) buffers

theorem encodeCalls_ok (runtime : Runtime) (message : List Field) (schemaId : UInt32)
    (calls : List Api) (buffers : Buffers (byteSizeLong message)) :
    ∃ after, encodeCalls runtime message schemaId calls buffers = .ok after := by
  induction calls generalizing buffers with
  | nil => exact ⟨buffers, rfl⟩
  | cons api rest ih =>
    obtain ⟨middle, hcall, -⟩ := encodeCall_ok runtime message schemaId api buffers
    obtain ⟨after, hafter⟩ := ih middle
    refine ⟨after, ?_⟩
    unfold encodeCalls
    rw [List.foldlM_cons, hcall]
    exact hafter

end Framing

section Pipeline

variable {Event : Type} [Traits Event] {runtime : Runtime}

/-- A successful serialization leaves a whole frame at the start of the output array. -/
theorem processEvent_frame (runtime : Runtime) (base event : Event) {mode : Mode}
    (scratch : Scratch Event) (hproto : doesProto mode = true) :
    ∃ added after, processEvent runtime event mode scratch (payloadSize base) =
        .ok (added, after) ∧
      ((runtime.serializeToArray (populatedFields event scratch)
          (toCInt (payloadSize base))).1 = true →
        after.output.bytes.take (6 + byteSizeLong (populatedFields event scratch)) =
          prefixBytes 1 ++ runtime.wire (populatedFields event scratch)) := by
  obtain ⟨output, hrun, htake⟩ := processEvent_serializes runtime base event scratch hproto
  rw [hrun]
  by_cases hok : (runtime.serializeToArray (populatedFields event scratch)
      (toCInt (payloadSize base))).1 = true
  · obtain ⟨line, hpipe⟩ := processPipe_ok event mode
      { scratch with message := Traits.populate event scratch.message, output }
      (payloadSize base + 6)
    rw [if_pos hok, hpipe]
    refine ⟨_, _, rfl, ?_⟩
    intro _
    rw [runtime.array_bytes _ _ hok, runtime.wire_length] at htake
    exact htake
  · rw [if_neg hok]
    exact ⟨_, _, rfl, fun hserialized => absurd hserialized hok⟩

/-- All framing paths leave the same bytes whatever was called before, and these
bytes give schema ID and payload back. -/
theorem framing_paths_agree (runtime : Runtime) (schemaId : UInt32) (message : List Field) :
    (∀ (buffers : Buffers (byteSizeLong message)) (calls : List Api) (api : Api),
      ∃ before after, encodeCalls runtime message schemaId calls buffers = .ok before ∧
        encodeCall runtime message schemaId api before =
          .ok (if serializes runtime message api then 6 + byteSizeLong message else 0, after) ∧
        (serializes runtime message api →
          after.frame api = prefixBytes schemaId ++ runtime.wire message ∧
          (after.frame api).length = 6 + byteSizeLong message)) ∧
    (∀ (Event : Type) [Traits Event] (base event : Event) (mode : Mode) (scratch : Scratch Event),
      doesProto mode = true →
      ∃ added after, processEvent runtime event mode scratch (payloadSize base) =
          .ok (added, after) ∧
        ((runtime.serializeToArray (populatedFields event scratch)
            (toCInt (payloadSize base))).1 = true →
          after.output.bytes.take (6 + byteSizeLong (populatedFields event scratch)) =
            prefixBytes 1 ++ runtime.wire (populatedFields event scratch))) ∧
    (∀ payload, decodeFrame (prefixBytes schemaId ++ payload) = some (schemaId, payload)) ∧
    ∀ schemaId' payload payload', (schemaId, payload) ≠ (schemaId', payload') →
      prefixBytes schemaId ++ payload ≠ prefixBytes schemaId' ++ payload' := by
  refine ⟨?_, ?_, decodeFrame_prefixBytes schemaId, ?_⟩
  · intro buffers calls api
    obtain ⟨before, hbefore⟩ := encodeCalls_ok runtime message schemaId calls buffers
    obtain ⟨after, hcall, hframe⟩ := encodeCall_ok runtime message schemaId api before
    refine ⟨before, after, hbefore, hcall, ?_⟩
    intro hok
    have hbytes := hframe hok
    refine ⟨hbytes, ?_⟩
    rw [hbytes, List.length_append, prefixBytes_length, runtime.wire_length]
  · intro Event _ base event mode scratch hproto
    exact processEvent_frame runtime base event scratch hproto
  · intro schemaId' payload payload' hdiffer hsame
    have hdecoded := decodeFrame_prefixBytes schemaId payload
    rw [hsame, decodeFrame_prefixBytes] at hdecoded
    exact hdiffer (Option.some.inj hdecoded).symm

/-- A first call through the payload buffer, with an ID of two bytes. -/
theorem framing_paths_agree_copied :
    ∃ after, encodeCall Runtime.standard [(1, .text (ascii "BTC-USD"))] 258
        .cachedIdFramedWithCopy
        ⟨ByteBuffer.zeros _, ByteBuffer.zeros _, [], []⟩ =
          .ok (6 + byteSizeLong [(1, .text (ascii "BTC-USD"))], after) ∧
      after.framed.bytes = [0, 0, 0, 1, 2, 0] ++ encode [(1, .text (ascii "BTC-USD"))] := by
  obtain ⟨before, after, hbefore, hcall, hframe⟩ :=
    (framing_paths_agree Runtime.standard 258 [(1, .text (ascii "BTC-USD"))]).1
      ⟨ByteBuffer.zeros _, ByteBuffer.zeros _, [], []⟩ [] .cachedIdFramedWithCopy
  obtain rfl := Except.ok.inj hbefore
  have hbound : byteSizeLong [(1, .text (ascii "BTC-USD"))] ≤ 34 * 1 :=
    byteSizeLong_le fun field hfield => by
      obtain rfl := List.mem_singleton.mp hfield
      exact ⟨by decide, by decide⟩
  have hok : serializes Runtime.standard [(1, .text (ascii "BTC-USD"))]
      .cachedIdFramedWithCopy = true := by
    have hsucceeds := Runtime.standard_succeeds [(1, .text (ascii "BTC-USD"))] (by omega)
    rw [← toCInt_of_lt (by omega)] at hsucceeds
    exact hsucceeds
  rw [if_pos hok] at hcall
  exact ⟨after, hcall, (hframe hok).1⟩

end Pipeline

end ProtobufKafkaBench.SchemaRegistry

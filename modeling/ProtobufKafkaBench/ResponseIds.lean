import ProtobufKafkaBench.CommandLine
import ProtobufKafkaBench.ConfluentFraming
import ProtobufKafkaBench.TextSearch

/-!
The schema ID taken from a reply of the Registry. The reply is not parsed: the
code looks for the bytes of `"id"`, then for a colon, and gives what follows to
`std::stoul`, whose result is cut to 32 bits. The ID returned is the number
written there only where that number has no sign and fits in 32 bits.
-/
namespace ProtobufKafkaBench.SchemaRegistry

open ByteBuffers CommandLine TextSearch

section Response

structure HttpResult where
  status : Int64
  body : Bytes

/-- The pattern `"id"` with its quotes. -/
def idPattern : Bytes := [34, 105, 100, 34]

/-- `colon + 1`; adding one to `npos` wraps around to zero. -/
def afterColon : Option ℕ → ℕ
  | none => 0
  | some colon => colon + 1

def responseId (result : HttpResult) : Except CliError UInt32 :=
  if result.status < 200 ∨ 300 ≤ result.status then
    .error (.runtimeError (ascii "Schema Registry HTTP status " ++
      decimalText result.status.toInt ++ ascii ": " ++ result.body))
  else
    match find result.body idPattern 0 with
    | none => .error (.runtimeError (ascii "Schema Registry response has no id: " ++ result.body))
    | some idPosition => do
      let colon := find result.body [58] idPosition
      let value ← stoul (result.body.drop (afterColon colon))
      return UInt32.ofNat value.toNat

def Successful (result : HttpResult) : Prop := 200 ≤ result.status ∧ result.status < 300

/-- The 32 bits that are left of the number of this sign and value. -/
def truncated (sign : Bytes) (n : ℕ) : UInt32 :=
  UInt32.ofNat (if sign = [45] then -BitVec.ofNat 64 n else BitVec.ofNat 64 n).toNat

theorem truncated_unsigned {n : ℕ} (hn : n < 2 ^ 32) : (truncated [] n).toNat = n := by
  have hsmall : n < 2 ^ 64 := by omega
  rw [truncated, if_neg (by simp), BitVec.toNat_ofNat, Nat.mod_eq_of_lt hsmall,
    UInt32.toNat_ofNat_of_lt' hn]

theorem not_successful_iff (result : HttpResult) :
    ¬ Successful result ↔ result.status < 200 ∨ 300 ≤ result.status := by
  simp only [Successful, Int64.le_iff_toInt_le, Int64.lt_iff_toInt_lt]
  omega

/-- The number given to `stoul`, when the first `"id"` stands at `position`. -/
def NumberAt (body : Bytes) (position : ℕ) (sign : Bytes) (n : ℕ) : Prop :=
  (∃ colon, FirstAt body [58] position colon ∧ numeral (body.drop (colon + 1)) = some (sign, n)) ∨
    (∀ colon, ¬ FirstAt body [58] position colon) ∧ numeral body = some (sign, n)

theorem numberAt_iff (body : Bytes) (position : ℕ) (sign : Bytes) (n : ℕ) :
    numeral (body.drop (afterColon (find body [58] position))) = some (sign, n) ↔
      NumberAt body position sign n := by
  have hcolon : ([58] : Bytes) ≠ [] := by simp
  cases hfind : find body [58] position with
  | none =>
    have hnone := (find_eq_none_iff hcolon).mp hfind
    constructor
    · exact fun h => Or.inr ⟨hnone, h⟩
    · intro h
      rcases h with ⟨colon, hfirst, -⟩ | ⟨-, h⟩
      · exact absurd hfirst (hnone colon)
      · exact h
  | some colon =>
    have hfirst := (find_eq_some_iff hcolon).mp hfind
    constructor
    · exact fun h => Or.inl ⟨colon, hfirst, h⟩
    · intro h
      rcases h with ⟨other, hother, h⟩ | ⟨hnone, -⟩
      · rw [hfirst.unique hother]
        exact h
      · exact absurd hfirst (hnone colon)

/-- What `response_id` returns, and when. -/
theorem responseId_eq_ok_iff {result : HttpResult} {id : UInt32} :
    responseId result = .ok id ↔ Successful result ∧
      ∃ position, FirstAt result.body idPattern 0 position ∧
        ∃ sign n, NumberAt result.body position sign n ∧ n < 2 ^ 64 ∧ id = truncated sign n := by
  have hpattern : idPattern ≠ [] := by simp [idPattern]
  unfold responseId
  by_cases hstatus : Successful result
  · rw [if_neg (fun h => (not_successful_iff result).mpr h hstatus)]
    cases hfind : find result.body idPattern 0 with
    | none =>
      have hnone := (find_eq_none_iff hpattern).mp hfind
      constructor
      · intro h
        cases h
      · intro h
        obtain ⟨-, position, hfirst, -⟩ := h
        exact absurd hfirst (hnone position)
    | some position =>
      have hfirst := (find_eq_some_iff hpattern).mp hfind
      constructor
      · intro h
        obtain ⟨value, hvalue, hid⟩ := Exceptions.bind_eq_ok.mp h
        obtain ⟨sign, n, hnumeral, hn, rfl⟩ := stoull_eq_ok_iff.mp hvalue
        refine ⟨hstatus, position, hfirst, sign, n, (numberAt_iff _ _ _ _).mp hnumeral, hn, ?_⟩
        exact (Except.ok.inj hid).symm
      · intro h
        obtain ⟨-, other, hother, sign, n, hnumber, hn, rfl⟩ := h
        rw [← hfirst.unique hother] at hnumber
        apply Exceptions.bind_eq_ok.mpr
        refine ⟨_, stoull_eq_ok_iff.mpr ⟨sign, n, ?_, hn, rfl⟩, rfl⟩
        exact (numberAt_iff _ _ _ _).mpr hnumber
  · rw [if_pos ((not_successful_iff result).mp hstatus)]
    constructor
    · intro h
      cases h
    · exact fun h => absurd h.1 hstatus

end Response

section SentIds

/-- The reply is a success, and the ID is written as an unsigned decimal integer
after the first colon that follows its first `"id"`. -/
def SentId (result : HttpResult) (id : UInt32) : Prop :=
  Successful result ∧ ∃ position colon, FirstAt result.body idPattern 0 position ∧
    FirstAt result.body [58] position colon ∧
    UnsignedAt (result.body.drop (colon + 1)) id.toNat

/-- A number that `std::stoul` would accept in this reply follows a colon, has
no sign and fits in 32 bits. -/
def PlainNumber (result : HttpResult) : Prop :=
  Successful result → ∀ position, FirstAt result.body idPattern 0 position →
    ∀ sign n, NumberAt result.body position sign n → n < 2 ^ 64 →
      (∃ colon, FirstAt result.body [58] position colon) ∧ sign = [] ∧ n < 2 ^ 32

theorem SentId.plain {result : HttpResult} {id : UInt32} (h : SentId result id) {position : ℕ}
    (hfirst : FirstAt result.body idPattern 0 position) {sign : Bytes} {n : ℕ}
    (hnumber : NumberAt result.body position sign n) :
    (∃ colon, FirstAt result.body [58] position colon) ∧ sign = [] ∧ n < 2 ^ 32 := by
  obtain ⟨-, other, colon, hother, hcolon, hunsigned⟩ := h
  rw [hother.unique hfirst] at hcolon
  rcases hnumber with ⟨colon', hcolon', hnumeral⟩ | ⟨hnone, -⟩
  · rw [hcolon'.unique hcolon] at hnumeral
    have hsame := (numeral_unsigned_iff.mpr hunsigned).symm.trans hnumeral
    obtain ⟨hsign, hvalue⟩ := Prod.mk.inj (Option.some.inj hsame)
    refine ⟨⟨colon, hcolon⟩, hsign.symm, ?_⟩
    rw [← hvalue]
    exact id.toNat_lt
  · exact absurd hcolon (hnone colon)

/-- No ID is invented exactly when the number read is a plain one; the frames
then carry the ID that was sent. -/
theorem responseId_sent_iff (result : HttpResult) :
    (∀ id, responseId result = .ok id → SentId result id ∧
      ∀ payload, decodeFrame (prefixBytes id ++ payload) = some (id, payload)) ↔
      PlainNumber result := by
  constructor
  · intro h hstatus position hfirst sign n hnumber hn
    have hok : responseId result = .ok (truncated sign n) :=
      responseId_eq_ok_iff.mpr ⟨hstatus, position, hfirst, sign, n, hnumber, hn, rfl⟩
    exact (h _ hok).1.plain hfirst hnumber
  · intro hplain id hok
    refine ⟨?_, decodeFrame_prefixBytes id⟩
    obtain ⟨hstatus, position, hfirst, sign, n, hnumber, hn, rfl⟩ := responseId_eq_ok_iff.mp hok
    obtain ⟨⟨colon, hcolon⟩, rfl, hsmall⟩ := hplain hstatus position hfirst sign n hnumber hn
    refine ⟨hstatus, position, colon, hfirst, hcolon, ?_⟩
    rw [truncated_unsigned hsmall]
    rcases hnumber with ⟨other, hother, hnumeral⟩ | ⟨hnone, -⟩
    · rw [hother.unique hcolon] at hnumeral
      exact numeral_unsigned_iff.mp hnumeral
    · exact absurd hcolon (hnone colon)

/-- `{"id":-1}` -/
def negativeReply : HttpResult := ⟨200, ascii "\x7b\"id\":-1\x7d"⟩

/-- A negative number is taken for the largest schema ID. -/
theorem negativeReply_invents_id :
    responseId negativeReply = .ok 4294967295 ∧ ¬ SentId negativeReply 4294967295 := by
  refine ⟨rfl, fun hsent => ?_⟩
  have hpattern : idPattern ≠ [] := by simp [idPattern]
  have hfirst : FirstAt negativeReply.body idPattern 0 1 := (find_eq_some_iff hpattern).mp rfl
  have hcolon : FirstAt negativeReply.body [58] 1 5 := (find_eq_some_iff (by simp)).mp rfl
  have hnumber : NumberAt negativeReply.body 1 [45] 1 := Or.inl ⟨5, hcolon, rfl⟩
  have hsign := (hsent.plain hfirst hnumber).2.1
  simp at hsign

end SentIds

end ProtobufKafkaBench.SchemaRegistry

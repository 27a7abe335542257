import ProtobufKafkaBench.JsonTexts
import ProtobufKafkaBench.ResponseIds
import Mathlib.Tactic.NormNum.Basic

/-!
Reading the ID of a well-formed reply: a JSON object with one member named id,
whose value is a natural number of 32 bits. The search for the bytes of `"id"`
does not know members from values, so the ID comes back when the first colon
after them is the one of that member. Otherwise what is returned does not depend
on the ID at all, since the number of the ID takes no part in the search.
-/
namespace ProtobufKafkaBench.SchemaRegistry

open ByteBuffers CommandLine TextSearch JsonStrings JsonTexts

section Replies

def idName : Bytes := [105, 100]

/-- The search for `"id"` and a colon ends at the colon of the ID itself. -/
def FindsColon (text : ObjectText) : Prop :=
  ∃ position, FirstAt text.bytes idPattern 0 position ∧
    FirstAt text.bytes [58] position (text.colonOf idName)

/-- The number that is read for the ID, with its sign. -/
def idNumeral (body : Bytes) : Option (Bytes × ℕ) :=
  (find body idPattern 0).bind fun position =>
    numeral (body.drop (afterColon (find body [58] position)))

variable {text : ObjectText} {member : Member} {number : JsonNumber} {n : ℕ}

theorem responseId_idNumeral {status : Int64} (hstatus : 200 ≤ status ∧ status < 300)
    {body : Bytes} {id : UInt32} : responseId ⟨status, body⟩ = .ok id ↔
      ∃ sign m, idNumeral body = some (sign, m) ∧ m < 2 ^ 64 ∧ id = truncated sign m := by
  have hpattern : idPattern ≠ [] := by simp [idPattern]
  rw [responseId_eq_ok_iff]
  constructor
  · intro h
    obtain ⟨-, position, hfirst, sign, m, hat, hm, heq⟩ := h
    refine ⟨sign, m, Option.bind_eq_some_iff.mpr ⟨position, ?_, ?_⟩, hm, heq⟩
    · exact (find_eq_some_iff hpattern).mpr hfirst
    · exact (numberAt_iff _ _ _ _).mpr hat
  · intro h
    obtain ⟨sign, m, hread, hm, heq⟩ := h
    obtain ⟨position, hfind, hnumeral⟩ := Option.bind_eq_some_iff.mp hread
    exact ⟨hstatus, position, (find_eq_some_iff hpattern).mp hfind, sign, m,
      (numberAt_iff _ _ _ _).mp hnumeral, hm, heq⟩

theorem truncated_unsigned_eq {m : ℕ} (hm : m < 2 ^ 64) : truncated [] m = UInt32.ofNat m := by
  rw [truncated, if_neg (by simp), BitVec.toNat_ofNat, Nat.mod_eq_of_lt hm]

/-- Cut to 32 bits, the integer part is the value of the number only if it is equal to it. -/
theorem truncated_eq_iff (hvalue : number.value = n) (hn : n < 2 ^ 32)
    (hsmall : number.integer.value < 2 ^ 64) :
    truncated (if number.minus then [45] else []) number.integer.value = UInt32.ofNat n ↔
      number.integer.value = n := by
  cases hminus : number.minus with
  | true =>
    obtain ⟨hinteger, hzero⟩ := JsonNumber.minus_value hminus hvalue
    rw [hinteger, hzero]
    exact iff_of_true rfl rfl
  | false =>
    rw [if_neg (by simp), truncated_unsigned_eq hsmall, ← UInt32.toNat_inj,
      UInt32.toNat_ofNat', UInt32.toNat_ofNat_of_lt' hn]
    exact JsonNumber.integer_mod_iff hvalue hn

end Replies

section Searches

variable {start between after : Bytes}

/-- Between the colon and `after` there is nothing of the pattern. -/
theorem find_idPattern (hbetween : ∀ byte ∈ between, byte ∉ idPattern) :
    find (start ++ 58 :: (between ++ after)) idPattern 0 = (findFirst idPattern start).or
      ((findFirst idPattern after).map (start.length + (between.length + 1) + ·)) := by
  have hmiddle : ∀ byte ∈ (58 : UInt8) :: between, byte ∉ idPattern := by
    intro byte hbyte
    rcases List.mem_cons.mp hbyte with rfl | hbyte
    · simp [idPattern]
    · exact hbetween byte hbyte
  have hsearch := @findFirst_append_middle idPattern start (58 :: between) after
    (by simp [idPattern]) (List.cons_ne_nil _ _) hmiddle
  rw [List.cons_append, List.length_cons] at hsearch
  rw [find, List.drop_zero, hsearch]
  simp only [Nat.zero_add, Option.map_id']

/-- From `position` on, the colon after `start` is found unless there is an earlier one. -/
theorem find_colon {position : ℕ} (hposition : position ≤ start.length) :
    find (start ++ 58 :: after) [58] position =
      some (((findFirst [58] (start.drop position)).map (position + ·)).getD start.length) := by
  rw [find, List.drop_append_of_le_length hposition, findFirst_byte_append]
  cases findFirst [58] (start.drop position) with
  | none =>
    rw [Option.none_or, List.length_drop]
    exact congrArg some (Nat.add_sub_cancel' hposition)
  | some offset => rfl

theorem findFirst_lt {text pattern : Bytes} {index : ℕ} (hpattern : pattern ≠ [])
    (h : findFirst pattern text = some index) : index < text.length := by
  obtain ⟨-, hat, -⟩ := (findFirst_eq_some_iff hpattern).mp h
  by_contra hge
  rw [List.drop_eq_nil_of_le (Nat.le_of_not_lt hge)] at hat
  exact hpattern (List.prefix_nil.mp hat)

/-- The colon after `start` is found, and what stands behind it is read. -/
theorem idNumeral_own {position : ℕ} (hbetween : ∀ byte ∈ between, byte ∉ idPattern)
    (hfirst : findFirst idPattern start = some position)
    (hcolon : findFirst [58] (start.drop position) = none) :
    idNumeral (start ++ 58 :: (between ++ after)) = numeral (between ++ after) := by
  have hposition := (findFirst_lt (by simp [idPattern]) hfirst).le
  rw [idNumeral, find_idPattern hbetween, hfirst, Option.some_or, Option.bind_some,
    find_colon hposition, hcolon]
  change numeral ((start ++ 58 :: (between ++ after)).drop (start.length + 1)) = _
  rw [← List.drop_drop, List.drop_left, List.drop_one, List.tail_cons]

/-- An earlier colon is found, and what is read ends before the one after `start`. -/
theorem idNumeral_earlier {position offset : ℕ} (hbetween : ∀ byte ∈ between, byte ∉ idPattern)
    (hfirst : findFirst idPattern start = some position)
    (hcolon : findFirst [58] (start.drop position) = some offset) :
    idNumeral (start ++ 58 :: (between ++ after)) =
      numeral (start.drop (position + offset + 1)) := by
  have hposition := (findFirst_lt (by simp [idPattern]) hfirst).le
  have hlt := findFirst_lt (by simp) hcolon
  rw [List.length_drop] at hlt
  rw [idNumeral, find_idPattern hbetween, hfirst, Option.some_or, Option.bind_some,
    find_colon hposition, hcolon]
  change numeral ((start ++ 58 :: (between ++ after)).drop (position + offset + 1)) = _
  rw [List.drop_append_of_le_length (by omega), numeral_colon]

/-- The pattern is found only in `after`, and only what stands there is read. -/
theorem idNumeral_later (hbetween : ∀ byte ∈ between, byte ∉ idPattern)
    (hobject : numeral (start ++ 58 :: (between ++ after)) = none)
    (hfirst : findFirst idPattern start = none) :
    idNumeral (start ++ 58 :: (between ++ after)) =
      (findFirst idPattern after).bind fun position =>
        (findFirst [58] (after.drop position)).bind fun offset =>
          numeral (after.drop (position + offset + 1)) := by
  have hdrop : ∀ n, (start ++ 58 :: (between ++ after)).drop
      (start.length + (between.length + 1) + n) = after.drop n := by
    intro n
    rw [← List.drop_drop, ← List.drop_drop, List.drop_left, List.drop_succ_cons, List.drop_left]
  rw [idNumeral, find_idPattern hbetween, hfirst, Option.none_or]
  cases findFirst idPattern after with
  | none => rfl
  | some position =>
    rw [Option.map_some, Option.bind_some, Option.bind_some, find, hdrop]
    cases findFirst [58] (after.drop position) with
    | none => exact hobject
    | some offset =>
      have hnumber := hdrop (position + offset + 1)
      rw [← Nat.add_assoc, ← Nat.add_assoc] at hnumber
      exact congrArg numeral hnumber

end Searches

section Parts

def noSpace : Whitespace := ⟨[], rfl⟩

/-- A text without characters that need an escape. -/
def plainChars (text : Bytes)
    (h : text.all (fun byte => 32 ≤ byte ∧ byte ≠ 34 ∧ byte ≠ 92) = true) : List JsonChar :=
  text.attach.map fun byte =>
    .unescaped byte.val (by simpa using List.all_eq_true.mp h byte.val byte.property)

def plainName (text : Bytes)
    (h : text.all (fun byte => 32 ≤ byte ∧ byte ≠ 34 ∧ byte ≠ 92) = true) : MemberName :=
  ⟨noSpace, plainChars text h, noSpace, noSpace⟩

/-- The digit one or five as a number. -/
def one : JsonNumber := ⟨false, ⟨[49], by simp, rfl⟩, Or.inr (by simp), none, none⟩

def five : JsonNumber := ⟨false, ⟨[53], by simp, rfl⟩, Or.inr (by simp), none, none⟩

theorem one_value : one.value = (1 : ℕ) := by
  simp [JsonNumber.value, JsonNumber.mantissa, JsonNumber.exponentValue, JsonNumber.fractionBytes,
    one, digitsValue]

theorem five_value : five.value = (5 : ℕ) := by
  simp [JsonNumber.value, JsonNumber.mantissa, JsonNumber.exponentValue, JsonNumber.fractionBytes,
    five, digitsValue]

end Parts

section Reading

variable {text : ObjectText} {member : Member} {number : JsonNumber} {n : ℕ}
  {start between after : Bytes}

/-- The number of the ID has none of the bytes that are searched for. -/
theorem not_mem_idPattern (blanks : Whitespace) (number : JsonNumber) :
    ∀ byte ∈ blanks.bytes ++ number.bytes, byte ∉ idPattern := by
  intro byte hbyte hpattern
  have hcases : byte = 34 ∨ byte = 105 ∨ byte = 100 ∨ byte = 34 := by
    simpa [idPattern] using hpattern
  rcases List.mem_append.mp hbyte with hblank | hnumber
  · have hspace := blanks.isSpace byte hblank
    rcases hcases with rfl | rfl | rfl | rfl <;> cases hspace
  · rcases JsonNumber.mem_bytes hnumber with hdigit | hmark
    · rcases hcases with rfl | rfl | rfl | rfl <;> cases hdigit
    · rcases hcases with rfl | rfl | rfl | rfl <;> simp at hmark

theorem findsColon_iff (hbytes : text.bytes = start ++ 58 :: (between ++ after))
    (hlength : start.length = text.colonOf idName)
    (hbetween : ∀ byte ∈ between, byte ∉ idPattern) :
    FindsColon text ↔ ∃ position, findFirst idPattern start = some position ∧
      findFirst [58] (start.drop position) = none := by
  have hpattern : idPattern ≠ [] := by simp [idPattern]
  unfold FindsColon
  simp only [← find_eq_some_iff hpattern, ← find_eq_some_iff (List.cons_ne_nil (58 : UInt8) []),
    hbytes, ← hlength, find_idPattern hbetween]
  refine exists_congr fun position => ?_
  cases hfirst : findFirst idPattern start with
  | some found =>
    rw [Option.some_or]
    refine and_congr_right fun hposition => ?_
    obtain rfl := Option.some.inj hposition
    rw [find_colon (findFirst_lt hpattern hfirst).le, Option.some_inj]
    cases hcolon : findFirst [58] (start.drop found) with
    | none => exact iff_of_true rfl rfl
    | some offset =>
      have hlt := findFirst_lt (by simp) hcolon
      rw [List.length_drop] at hlt
      refine iff_of_false (fun heq => ?_) (Option.some_ne_none offset)
      change found + offset = start.length at heq
      omega
  | none =>
    refine iff_of_false (fun h => ?_) fun h => absurd h.1.symm (Option.some_ne_none position)
    obtain ⟨hposition, hcolon⟩ := h
    obtain ⟨found, -, rfl⟩ := Option.map_eq_some_iff.mp (Option.none_or.symm.trans hposition)
    have hle := ((find_eq_some_iff (List.cons_ne_nil _ _)).mp hcolon).1
    omega

/-- The same reply with another number for its ID. -/
abbrev withId (text : ObjectText) (number : JsonNumber) : ObjectText :=
  text.withValue idName (.number number)

/-- The number read is that of the ID, whatever it is, or one that the ID has no part in. -/
theorem idNumeral_withId
    (hunique : text.members.filter (fun member => member.1.isNamed idName) = [member]) :
    (∀ number, FindsColon (withId text number) ∧ idNumeral (withId text number).bytes =
      some (if number.minus then [45] else [], number.integer.value)) ∨
    ∃ read, ∀ number, ¬ FindsColon (withId text number) ∧
      idNumeral (withId text number).bytes = read := by
  obtain ⟨start, rest, hbytes, hlength, ⟨inner, hinner⟩, hrest⟩ :=
    ObjectText.withValue_bytes hunique
  have hnumber : ∀ number, (withId text number).bytes =
      start ++ 58 :: ((member.1.afterColon.bytes ++ number.bytes) ++ rest) := by
    intro number
    rw [hbytes, JsonValue.bytes]
  have hbetween := not_mem_idPattern member.1.afterColon
  have hcolon := fun number => findsColon_iff (hnumber number) (hlength _) (hbetween number)
  have hobject : ∀ more, numeral (start ++ more) = none := by
    intro more
    rw [← hinner, List.append_assoc, List.append_assoc]
    exact numeral_object _ _
  cases hfirst : findFirst idPattern start with
  | none =>
    refine Or.inr ⟨_, fun number => ⟨?_, (congrArg idNumeral (hnumber number)).trans
      (idNumeral_later (hbetween number) (hobject _) hfirst)⟩⟩
    rw [hcolon number, hfirst]
    rintro ⟨position, hposition, -⟩
    cases hposition
  | some position =>
    cases hearlier : findFirst [58] (start.drop position) with
    | none =>
      refine Or.inl fun number => ⟨(hcolon number).mpr ⟨position, hfirst, hearlier⟩, ?_⟩
      rw [hnumber number, idNumeral_own (hbetween number) hfirst hearlier]
      exact numeral_number _ _ hrest
    | some offset =>
      refine Or.inr ⟨_, fun number => ⟨?_, (congrArg idNumeral (hnumber number)).trans
        (idNumeral_earlier (hbetween number) hfirst hearlier)⟩⟩
      rw [hcolon number]
      rintro ⟨other, hother, hnone⟩
      obtain rfl := Option.some.inj (hfirst.symm.trans hother)
      cases hearlier.symm.trans hnone

theorem withId_self
    (hunique : text.members.filter (fun member => member.1.isNamed idName) = [member])
    (hnumber : member.2.1 = .number number) : withId text number = text := by
  rw [withId, ← hnumber]
  exact ObjectText.withValue_self hunique

/-- Its own number comes back from a reply exactly if it has no other integer part. -/
theorem responseId_own {status : Int64} (hstatus : 200 ≤ status ∧ status < 300)
    (hread : idNumeral text.bytes = some (if number.minus then [45] else [], number.integer.value))
    (hvalue : number.value = n) (hn : n < 2 ^ 32) :
    responseId ⟨status, text.bytes⟩ = .ok (UInt32.ofNat n) ↔ number.integer.value = n := by
  rw [responseId_idNumeral hstatus, hread]
  constructor
  · intro h
    obtain ⟨sign, m, heq, hm, hid⟩ := h
    obtain ⟨rfl, rfl⟩ := Prod.mk.inj (Option.some.inj heq)
    exact (truncated_eq_iff hvalue hn hm).mp hid.symm
  · intro hinteger
    have hsmall : number.integer.value < 2 ^ 64 := by omega
    exact ⟨_, _, rfl, hsmall, ((truncated_eq_iff hvalue hn hsmall).mpr hinteger).symm⟩

/-- A successful reply with one ID gives its ID back, whatever number this is and if it is
written without fraction or exponent, exactly when the first colon after the first `"id"` is the
ID's own. With this colon a number comes back that is its own integer part, and no other; with
any other colon what comes back, if anything does, has nothing to do with the ID. -/
theorem responseId_reads_iff {status : Int64} (hstatus : 200 ≤ status ∧ status < 300)
    (hunique : text.members.filter (fun member => member.1.isNamed idName) = [member])
    (hnumber : member.2.1 = .number number) (hvalue : number.value = n) (hn : n < 2 ^ 32) :
    (FindsColon text ↔ ∀ (other : JsonNumber) (m : ℕ), other.value = m → m < 2 ^ 32 →
      other.integer.value = m →
        responseId ⟨status, (withId text other).bytes⟩ = .ok (UInt32.ofNat m)) ∧
    (FindsColon text →
      (responseId ⟨status, text.bytes⟩ = .ok (UInt32.ofNat n) ↔ number.integer.value = n)) ∧
    (¬ FindsColon text → ∀ other id, responseId ⟨status, (withId text other).bytes⟩ = .ok id ↔
      responseId ⟨status, text.bytes⟩ = .ok id) := by
  have hself := withId_self hunique hnumber
  rcases idNumeral_withId hunique with hown | ⟨read, hother⟩
  · obtain ⟨hfinds, hread⟩ := hown number
    rw [hself] at hfinds hread
    refine ⟨iff_of_true hfinds fun other m hm hlt hinteger => ?_,
      fun _ => responseId_own hstatus hread hvalue hn, fun hnot => absurd hfinds hnot⟩
    exact (responseId_own hstatus (hown other).2 hm hlt).mpr hinteger
  · obtain ⟨hfinds, hread⟩ := hother number
    rw [hself] at hfinds hread
    have hsame : ∀ other id, responseId ⟨status, (withId text other).bytes⟩ = .ok id ↔
        responseId ⟨status, text.bytes⟩ = .ok id := by
      intro other id
      rw [responseId_idNumeral hstatus, responseId_idNumeral hstatus, (hother other).2, hread]
    refine ⟨iff_of_false hfinds fun hall => ?_, fun h => absurd h hfinds, fun _ => hsame⟩
    -- one and five cannot both be what always comes back
    have hone := (hsame one _).mp (hall one 1 one_value (by norm_num) rfl)
    have hfive := (hsame five _).mp (hall five 5 five_value (by norm_num) rfl)
    rw [hone] at hfive
    exact absurd (Except.ok.inj hfive) (by decide)

end Reading

section Samples

/-- `{"id":5}` -/
def idReply : ObjectText where
  before := noSpace
  inner := noSpace
  members := [(plainName idName rfl, .number five, noSpace)]
  after := noSpace

theorem idReply_read : responseId ⟨200, idReply.bytes⟩ = .ok (UInt32.ofNat 5) ∧
    responseId ⟨200, (withId idReply one).bytes⟩ = .ok (UInt32.ofNat 1) := by
  have hfinds : FindsColon idReply := by
    refine ⟨1, (find_eq_some_iff (by simp [idPattern])).mp rfl, ?_⟩
    exact (find_eq_some_iff (by simp)).mp rfl
  have hstatus : (200 : Int64) ≤ 200 ∧ (200 : Int64) < 300 := by decide
  have hunique : idReply.members.filter (fun member => member.1.isNamed idName) =
      [(plainName idName rfl, .number five, noSpace)] := by rfl
  obtain ⟨hall, hown, -⟩ := responseId_reads_iff hstatus hunique rfl five_value (by norm_num)
  exact ⟨(hown hfinds).mpr rfl, hall.mp hfinds one 1 one_value (by norm_num) rfl⟩

/-- A lookup of the latest version of a subject that is called id. -/
def subjectReply : ObjectText where
  before := noSpace
  inner := noSpace
  members :=
    [(plainName (ascii "subject") rfl, .string (plainChars idName rfl), noSpace),
     (plainName (ascii "version") rfl, .number one, noSpace),
     (plainName idName rfl, .number five, noSpace)]
  after := noSpace

theorem subjectReply_bytes : subjectReply.bytes =
    ascii "\x7b\"subject\":\"id\",\"version\":1,\"id\":5\x7d" := by
  rfl

/-- The version is returned for the ID. -/
theorem subjectReply_misread :
    subjectReply.members.filter (fun member => member.1.isNamed idName) =
        [(plainName idName rfl, .number five, noSpace)] ∧
      five.value = (5 : ℕ) ∧ responseId ⟨200, subjectReply.bytes⟩ = .ok 1 ∧
      responseId ⟨200, subjectReply.bytes⟩ ≠ .ok (UInt32.ofNat 5) := by
  have hread : responseId ⟨200, subjectReply.bytes⟩ = .ok 1 := by
    rw [subjectReply_bytes]
    rfl
  refine ⟨by rfl, five_value, hread, ?_⟩
  rw [hread]
  simp

end Samples

end ProtobufKafkaBench.SchemaRegistry

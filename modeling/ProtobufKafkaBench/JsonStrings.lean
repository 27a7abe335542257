import ProtobufKafkaBench.ByteBuffers

/-!
JSON strings as bytes. RFC 8259 says what may stand between the quotes; a
scanner reads up to the first quote that is not escaped; an encoder replaces a
text byte by byte. An encoder is lossless when each byte becomes an escape that
the scanner undoes, or is left alone where the scanner reads it as itself.
-/
namespace ProtobufKafkaBench.JsonStrings

open ByteBuffers

section Grammar

def isHexDigit (byte : UInt8) : Bool :=
  48 ≤ byte ∧ byte ≤ 57 ∨ 65 ≤ byte ∧ byte ≤ 70 ∨ 97 ≤ byte ∧ byte ≤ 102

/-- `char` of the grammar. The bytes of a character beyond ASCII are unescaped one by one. -/
inductive JsonChar
  | unescaped (byte : UInt8) (allowed : 32 ≤ byte ∧ byte ≠ 34 ∧ byte ≠ 92)
  | escape (letter : UInt8) (known : letter ∈ [34, 92, 47, 98, 102, 110, 114, 116])
  | unicode (digits : Bytes) (hex : digits.length = 4 ∧ digits.all isHexDigit = true)

def JsonChar.bytes : JsonChar → Bytes
  | .unescaped byte _ => [byte]
  | .escape letter _ => [92, letter]
  | .unicode digits _ => 92 :: 117 :: digits

/-- What may stand between the quotes of a string. -/
def StringBody (text : Bytes) : Prop := ∃ chars : List JsonChar, chars.flatMap JsonChar.bytes = text

theorem StringBody.nil : StringBody [] := ⟨[], rfl⟩

theorem StringBody.append {first second : Bytes} (hfirst : StringBody first)
    (hsecond : StringBody second) : StringBody (first ++ second) := by
  obtain ⟨before, rfl⟩ := hfirst
  obtain ⟨after, rfl⟩ := hsecond
  exact ⟨before ++ after, List.flatMap_append⟩

theorem isHexDigit_range {byte : UInt8} (h : isHexDigit byte = true) : 32 ≤ byte.toNat := by
  simp only [isHexDigit, decide_eq_true_eq, UInt8.le_iff_toNat_le, UInt8.reduceToNat] at h
  omega

theorem JsonChar.bytes_range (char : JsonChar) : ∀ byte ∈ char.bytes, 32 ≤ byte.toNat := by
  intro byte hbyte
  cases char with
  | unescaped allowedByte allowed =>
    obtain rfl := List.mem_singleton.mp hbyte
    simpa [UInt8.le_iff_toNat_le] using allowed.1
  | escape letter known =>
    have hmem : byte ∈ [92, letter] := hbyte
    simp only [List.mem_cons, List.not_mem_nil, or_false] at known hmem
    rcases hmem with rfl | rfl
    · simp
    · rcases known with rfl | rfl | rfl | rfl | rfl | rfl | rfl | rfl <;> simp
  | unicode digits hex =>
    rcases List.mem_cons.mp hbyte with rfl | hbyte
    · simp
    · rcases List.mem_cons.mp hbyte with rfl | hdigit
      · simp
      · exact isHexDigit_range (List.all_eq_true.mp hex.2 byte hdigit)

/-- No byte below 0x20 occurs in a string, escaped or not. -/
theorem StringBody.range {text : Bytes} (h : StringBody text) : ∀ byte ∈ text, 32 ≤ byte.toNat := by
  obtain ⟨chars, rfl⟩ := h
  intro byte hbyte
  obtain ⟨char, -, hin⟩ := List.mem_flatMap.mp hbyte
  exact char.bytes_range byte hin

theorem StringBody.flatMap {text : Bytes} {escape : UInt8 → Bytes}
    (h : ∀ byte ∈ text, StringBody (escape byte)) : StringBody (text.flatMap escape) := by
  induction text with
  | nil => exact StringBody.nil
  | cons byte rest ih =>
    rw [List.flatMap_cons]
    apply StringBody.append
    · exact h byte List.mem_cons_self
    · exact ih fun other hother => h other (List.mem_cons_of_mem _ hother)

end Grammar

section Scanner

/-- The character that a backslash and this letter stand for. -/
def unescape (letter : UInt8) : Option UInt8 :=
  if letter = 34 then some 34
  else if letter = 92 then some 92
  else if letter = 110 then some 10
  else if letter = 114 then some 13
  else if letter = 116 then some 9
  else none

/-- Read from after an opening quote: the text up to the closing quote, and
what follows it. -/
def scanString : Bytes → Option (Bytes × Bytes)
  | [] => none
  | [byte] => if byte = 34 then some ([], []) else none
  | byte :: letter :: rest =>
    if byte = 34 then some ([], letter :: rest)
    else if byte = 92 then
      match unescape letter with
      | some original => (scanString rest).map fun (text, tail) => (original :: text, tail)
      | none => (scanString (letter :: rest)).map fun (text, tail) => (byte :: text, tail)
    else (scanString (letter :: rest)).map fun (text, tail) => (byte :: text, tail)

theorem scanString_quote (rest : Bytes) : scanString (34 :: rest) = some ([], rest) := by
  cases rest with
  | nil => rfl
  | cons letter rest => rw [scanString, if_pos rfl]

theorem scanString_plain {byte : UInt8} (hquote : byte ≠ 34) (hbackslash : byte ≠ 92)
    (rest : Bytes) :
    scanString (byte :: rest) =
      (scanString rest).map fun (text, tail) => (byte :: text, tail) := by
  cases rest with
  | nil => simp [scanString, hquote]
  | cons letter rest => rw [scanString, if_neg hquote, if_neg hbackslash]

theorem scanString_escape {letter original : UInt8} (h : unescape letter = some original)
    (rest : Bytes) :
    scanString (92 :: letter :: rest) =
      (scanString rest).map fun (text, tail) => (original :: text, tail) := by
  rw [scanString, if_neg (by simp), if_pos rfl]
  simp only [h]

/-- A byte is replaced by an escape that stands for it, or is not one that needs an escape. -/
def Lossless (escape : UInt8 → Bytes) : Prop :=
  ∀ byte, (∃ letter, unescape letter = some byte ∧ escape byte = [92, letter]) ∨
    (byte ≠ 34 ∧ byte ≠ 92 ∧ escape byte = [byte])

/-- The scanner gives back what a lossless encoder was given, and stops at the
quote after it. -/
theorem scanString_flatMap {escape : UInt8 → Bytes} (h : Lossless escape) (text rest : Bytes) :
    scanString (text.flatMap escape ++ 34 :: rest) = some (text, rest) := by
  induction text with
  | nil => exact scanString_quote rest
  | cons byte text ih =>
    rcases h byte with ⟨letter, hletter, hescape⟩ | ⟨hquote, hbackslash, hescape⟩
    · have hbytes : (byte :: text).flatMap escape ++ 34 :: rest =
          92 :: letter :: (text.flatMap escape ++ 34 :: rest) := by
        simp [List.flatMap_cons, hescape]
      rw [hbytes, scanString_escape hletter, ih]
      rfl
    · have hbytes : (byte :: text).flatMap escape ++ 34 :: rest =
          byte :: (text.flatMap escape ++ 34 :: rest) := by
        simp [List.flatMap_cons, hescape]
      rw [hbytes, scanString_plain hquote hbackslash, ih]
      rfl

end Scanner

section Members

/-- A member whose value is a string: the pair, and what follows it. -/
def scanMember : Bytes → Option ((Bytes × Bytes) × Bytes)
  | 34 :: rest =>
    match scanString rest with
    | some (name, 58 :: 34 :: rest) =>
      (scanString rest).map fun (value, tail) => ((name, value), tail)
    | _ => none
  | _ => none

def scanMembers : ℕ → Bytes → Option (List (Bytes × Bytes))
  | 0, _ => none
  | fuel + 1, text =>
    match scanMember text with
    | some (member, [125]) => some [member]
    | some (member, 44 :: rest) => (scanMembers fuel rest).map (member :: ·)
    | _ => none

/-- The members of an object of strings written without white space. -/
def scanObject : Bytes → Option (List (Bytes × Bytes))
  | 123 :: rest => scanMembers rest.length rest
  | _ => none

/-- A member as an encoder of values writes it. -/
def member (escape : UInt8 → Bytes) (name value : Bytes) : Bytes :=
  34 :: (name ++ 34 :: 58 :: 34 :: (value.flatMap escape ++ [34]))

theorem scanString_name {name : Bytes} (hname : ∀ byte ∈ name, byte ≠ 34 ∧ byte ≠ 92)
    (rest : Bytes) : scanString (name ++ 34 :: rest) = some (name, rest) := by
  induction name with
  | nil => exact scanString_quote rest
  | cons byte name ih =>
    obtain ⟨hquote, hbackslash⟩ := hname byte List.mem_cons_self
    rw [List.cons_append, scanString_plain hquote hbackslash,
      ih fun other hother => hname other (List.mem_cons_of_mem _ hother)]
    rfl

theorem scanMember_member {escape : UInt8 → Bytes} (h : Lossless escape) {name : Bytes}
    (hname : ∀ byte ∈ name, byte ≠ 34 ∧ byte ≠ 92) (value rest : Bytes) :
    scanMember (member escape name value ++ rest) = some ((name, value), rest) := by
  have hbytes : member escape name value ++ rest =
      34 :: (name ++ 34 :: 58 :: 34 :: (value.flatMap escape ++ 34 :: rest)) := by
    simp [member]
  rw [hbytes, scanMember, scanString_name hname]
  simp only [scanString_flatMap h]
  rfl

/-- Two members are read back as they were given, whatever bytes their values hold. -/
theorem scanObject_two_members {escape : UInt8 → Bytes} (h : Lossless escape) {first second : Bytes}
    (hfirst : ∀ byte ∈ first, byte ≠ 34 ∧ byte ≠ 92)
    (hsecond : ∀ byte ∈ second, byte ≠ 34 ∧ byte ≠ 92) (value other : Bytes) :
    scanObject (123 :: (member escape first value ++ 44 :: (member escape second other ++ [125]))) =
      some [(first, value), (second, other)] := by
  have hfuel : ∃ fuel, (member escape first value ++
      44 :: (member escape second other ++ [125])).length = fuel + 2 := by
    refine ⟨(member escape first value ++ member escape second other).length, ?_⟩
    simp only [List.length_append, List.length_cons, List.length_nil]
    omega
  obtain ⟨fuel, hfuel⟩ := hfuel
  rw [scanObject, hfuel, scanMembers, scanMember_member h hfirst]
  simp only [scanMembers, scanMember_member h hsecond, Option.map_some]

end Members

end ProtobufKafkaBench.JsonStrings

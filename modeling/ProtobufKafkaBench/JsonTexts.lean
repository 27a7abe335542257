import ProtobufKafkaBench.DecimalNumbers
import ProtobufKafkaBench.JsonStrings
import Mathlib.Algebra.Field.Rat
import Mathlib.Algebra.Order.Field.Rat
import Mathlib.Data.Nat.Prime.Basic
import Mathlib.Data.Rat.Cast.Defs

/-!
JSON texts of RFC 8259 as syntax trees that keep every byte: white space, the
escapes of a string, the fraction and the exponent of a number. A tree can only
be built from parts the grammar allows, and `bytes` writes it out. The last
section is the arithmetic of a number whose value is a natural number: how its
integer part, as it is written, relates to that value.
-/
namespace ProtobufKafkaBench.JsonTexts

open ByteBuffers CommandLine DecimalNumbers JsonStrings

section Tokens

/-- `ws` -/
structure Whitespace where
  bytes : Bytes
  blank : bytes.all (fun byte => byte = 32 ∨ byte = 9 ∨ byte = 10 ∨ byte = 13) = true

/-- `1*DIGIT` -/
structure Digits where
  bytes : Bytes
  nonempty : bytes ≠ []
  digits : bytes.all isDigit = true

def Digits.value (digits : Digits) : ℕ := digitsValue digits.bytes

/-- `exp`, with a sign or without. -/
structure Exponent where
  mark : UInt8
  isMark : mark = 69 ∨ mark = 101
  sign : Bytes
  isSign : sign = [] ∨ sign = [43] ∨ sign = [45]
  digits : Digits

def Exponent.bytes (exponent : Exponent) : Bytes :=
  exponent.mark :: (exponent.sign ++ exponent.digits.bytes)

def Exponent.value (exponent : Exponent) : ℤ :=
  if exponent.sign = [45] then -exponent.digits.value else exponent.digits.value

/-- `number = [ minus ] int [ frac ] [ exp ]` -/
structure JsonNumber where
  minus : Bool
  integer : Digits
  noLeadingZero : integer.bytes = [48] ∨ integer.bytes.head? ≠ some 48
  fraction : Option Digits
  exponent : Option Exponent

namespace JsonNumber

def fractionBytes (number : JsonNumber) : Bytes := number.fraction.elim [] Digits.bytes

/-- What stands after the integer part. -/
def tail (number : JsonNumber) : Bytes :=
  number.fraction.elim [] (fun digits => 46 :: digits.bytes) ++
    number.exponent.elim [] Exponent.bytes

def bytes (number : JsonNumber) : Bytes :=
  (if number.minus then [45] else []) ++ number.integer.bytes ++ number.tail

def exponentValue (number : JsonNumber) : ℤ := number.exponent.elim 0 Exponent.value

/-- The digits of the integer part and the fraction, read as one number. -/
def mantissa (number : JsonNumber) : ℕ := digitsValue (number.integer.bytes ++ number.fractionBytes)

def value (number : JsonNumber) : ℚ :=
  (if number.minus then -1 else 1) * number.mantissa *
    10 ^ (number.exponentValue - number.fractionBytes.length)

end JsonNumber

end Tokens

section Values

/-- Everything of a member up to its value. -/
structure MemberName where
  before : Whitespace
  chars : List JsonChar
  beforeColon : Whitespace
  afterColon : Whitespace

/-- An element or a member carries the white space around it; an empty array or
object has only what follows its opening bracket. -/
inductive JsonValue
  | null
  | true
  | false
  | number (number : JsonNumber)
  | string (chars : List JsonChar)
  | array (inner : Whitespace) (elements : List (Whitespace × JsonValue × Whitespace))
  | object (inner : Whitespace) (members : List (MemberName × JsonValue × Whitespace))

abbrev Member := MemberName × JsonValue × Whitespace

def quoted (chars : List JsonChar) : Bytes := 34 :: (chars.flatMap JsonChar.bytes ++ [34])

/-- The name with its white space, up to the colon. -/
def MemberName.upToColon (name : MemberName) : Bytes :=
  name.before.bytes ++ quoted name.chars ++ name.beforeColon.bytes

mutual

def JsonValue.bytes : JsonValue → Bytes
  | .null => ascii "null"
  | .true => ascii "true"
  | .false => ascii "false"
  | .number number => number.bytes
  | .string chars => quoted chars
  | .array inner elements => 91 :: (inner.bytes ++ elementsBytes elements ++ [93])
  | .object inner members => 123 :: (inner.bytes ++ membersBytes members ++ [125])

def elementsBytes : List (Whitespace × JsonValue × Whitespace) → Bytes
  | [] => []
  | (before, value, after) :: rest =>
    before.bytes ++ value.bytes ++ after.bytes ++ (if rest.isEmpty then [] else [44]) ++
      elementsBytes rest

def membersBytes : List (MemberName × JsonValue × Whitespace) → Bytes
  | [] => []
  | (name, value, after) :: rest =>
    name.upToColon ++ 58 :: (name.afterColon.bytes ++ value.bytes ++ after.bytes ++
      (if rest.isEmpty then [] else [44]) ++ membersBytes rest)

end

/-- A JSON text whose value is an object. -/
structure ObjectText where
  before : Whitespace
  inner : Whitespace
  members : List Member
  after : Whitespace

def ObjectText.bytes (text : ObjectText) : Bytes :=
  text.before.bytes ++ (JsonValue.object text.inner text.members).bytes ++ text.after.bytes

end Values

section Names

def hexDigitValue (byte : UInt8) : ℕ :=
  if byte ≤ 57 then byte.toNat - 48 else if byte ≤ 70 then byte.toNat - 55 else byte.toNat - 87

/-- The ASCII character that is meant, if it is one. -/
def character : JsonChar → Option UInt8
  | .unescaped byte _ => if byte < 128 then some byte else none
  | .escape letter _ =>
    if letter = 98 then some 8
    else if letter = 102 then some 12
    else if letter = 110 then some 10
    else if letter = 114 then some 13
    else if letter = 116 then some 9
    else some letter
  | .unicode digits _ =>
    let code := digits.foldl (fun value digit => value * 16 + hexDigitValue digit) 0
    if code < 128 then some (UInt8.ofNat code) else none

/-- The name means this ASCII text, however it is escaped. -/
def MemberName.isNamed (name : MemberName) (text : Bytes) : Bool :=
  name.chars.map character = text.map some

/-- A member that another one follows. -/
def memberAndComma (member : Member) : Bytes :=
  member.1.upToColon ++
    58 :: (member.1.afterColon.bytes ++ member.2.1.bytes ++ member.2.2.bytes ++ [44])

/-- The position of the colon of the first member with this name. -/
def ObjectText.colonOf (text : ObjectText) (name : Bytes) : ℕ :=
  (text.before.bytes ++ 123 :: (text.inner.bytes ++
    (text.members.takeWhile fun member => !member.1.isNamed name).flatMap memberAndComma ++
    ((text.members.find? fun member => member.1.isNamed name).elim []
      fun member => member.1.upToColon))).length

theorem membersBytes_append (earlier : List Member) (member : Member) (later : List Member) :
    membersBytes (earlier ++ member :: later) =
      earlier.flatMap memberAndComma ++ membersBytes (member :: later) := by
  induction earlier with
  | nil => rfl
  | cons first rest ih =>
    obtain ⟨name, value, after⟩ := first
    have hrest : (rest ++ member :: later).isEmpty = false := by cases rest <;> rfl
    rw [List.cons_append, membersBytes, ih, hrest, List.flatMap_cons]
    simp [memberAndComma]

/-- The text with another value for the members of this name. -/
def ObjectText.withValue (text : ObjectText) (name : Bytes) (value : JsonValue) : ObjectText :=
  { text with
    members := text.members.map fun member =>
      if member.1.isNamed name then (member.1, value, member.2.2) else member }

theorem ObjectText.withValue_self {text : ObjectText} {name : Bytes} {member : Member}
    (h : text.members.filter (fun member => member.1.isNamed name) = [member]) :
    text.withValue name member.2.1 = text := by
  have hmembers : text.members.map (fun other =>
      if other.1.isNamed name then (other.1, member.2.1, other.2.2) else other) = text.members := by
    refine (List.map_congr_left fun other hother => ?_).trans (List.map_id _)
    by_cases hnamed : other.1.isNamed name = true
    · have hsame : other ∈ text.members.filter fun member => member.1.isNamed name :=
        List.mem_filter.mpr ⟨hother, hnamed⟩
      rw [h, List.mem_singleton] at hsame
      rw [if_pos hnamed, hsame]
      rfl
    · exact if_neg hnamed
  unfold withValue
  rw [hmembers]

/-- What stands around the value of the only member of a name. After the value come white
space, a comma or a brace. -/
theorem ObjectText.withValue_bytes {text : ObjectText} {name : Bytes} {member : Member}
    (h : text.members.filter (fun member => member.1.isNamed name) = [member]) :
    ∃ start rest, (∀ value, (text.withValue name value).bytes =
        start ++ 58 :: (member.1.afterColon.bytes ++ value.bytes ++ rest)) ∧
      (∀ value, start.length = (text.withValue name value).colonOf name) ∧
      text.before.bytes ++ [123] <+: start ∧
      ∀ byte, rest.head? = some byte → isDigit byte = false := by
  obtain ⟨earlier, later, hmembers, hearlier, hmember, hlater⟩ := List.filter_eq_cons_iff.mp h
  have hsame : ∀ (value : JsonValue) (others : List Member),
      (∀ other ∈ others, ¬ other.1.isNamed name = true) → others.map (fun member =>
        if member.1.isNamed name then (member.1, value, member.2.2) else member) = others := by
    intro value others hothers
    exact (List.map_congr_left fun other hother => if_neg (hothers other hother)).trans
      (List.map_id _)
  have hwith : ∀ value, (text.withValue name value).members =
      earlier ++ (member.1, value, member.2.2) :: later := by
    intro value
    unfold withValue
    simp only [hmembers, List.map_append, List.map_cons, if_pos hmember,
      hsame value earlier hearlier, hsame value later (List.filter_eq_nil_iff.mp hlater)]
  obtain ⟨memberName, old, after⟩ := member
  refine ⟨text.before.bytes ++ 123 :: (text.inner.bytes ++ earlier.flatMap memberAndComma ++
    memberName.upToColon), after.bytes ++ ((if later.isEmpty then [] else [44]) ++
      membersBytes later ++ 125 :: text.after.bytes), fun value => ?_, fun value => ?_, ?_, ?_⟩
  · rw [ObjectText.bytes, JsonValue.bytes, hwith, membersBytes_append, membersBytes]
    simp [withValue]
  · rw [ObjectText.colonOf, hwith, List.takeWhile_append_of_pos (by simpa using hearlier),
      List.takeWhile_cons_of_neg (by simp [hmember]), List.append_nil, List.find?_append,
      List.find?_eq_none.mpr (by simpa using hearlier), Option.none_or, List.find?_cons, hmember]
    rfl
  · exact ⟨_, List.append_assoc _ _ _⟩
  · intro byte hbyte
    cases hafter : after.bytes with
    | nil =>
      rw [hafter] at hbyte
      cases later with
      | nil =>
        obtain rfl : 125 = byte := by simpa [membersBytes] using hbyte
        rfl
      | cons next later =>
        obtain rfl : 44 = byte := by simpa using hbyte
        rfl
    | cons first blanks =>
      rw [hafter] at hbyte
      obtain rfl : first = byte := by simpa using hbyte
      have hblank := List.all_eq_true.mp after.blank first (by simp [hafter])
      simp only [decide_eq_true_eq] at hblank
      rcases hblank with rfl | rfl | rfl | rfl <;> rfl

end Names

section Numbers

theorem digitsValue_lt {digits : Bytes} (h : digits.all isDigit = true) :
    digitsValue digits < 10 ^ digits.length := by
  induction digits using List.reverseRecOn with
  | nil => simp [digitsValue]
  | append_singleton digits digit ih =>
    rw [List.all_append, Bool.and_eq_true] at h
    have hinit := ih h.1
    have hdigit : isDigit digit = true := by simpa using h.2
    simp only [isDigit, decide_eq_true_eq, UInt8.le_iff_toNat_le, UInt8.reduceToNat] at hdigit
    have hlast : digitsValue [digit] = digit.toNat - 48 := by simp [digitsValue]
    rw [digitsValue_append, hlast, List.length_append, List.length_singleton, pow_one, pow_succ]
    omega

/-- An integer part that is congruent to the whole value, a natural number, is
equal to it: a negative exponent would multiply it by a power of ten, and a
positive one divide it. -/
theorem integer_eq_of_mod {integer fraction width n w : ℕ} {exponent : ℤ}
    (hfraction : fraction < 10 ^ width)
    (hvalue : ((integer * 10 ^ width + fraction : ℕ) : ℚ) * 10 ^ (exponent - width) = n)
    (hn : n < 2 ^ w) (hmod : integer % 2 ^ w = n) : integer = n := by
  have hten : (10 : ℚ) ≠ 0 := by norm_num
  by_cases hexponent : 0 ≤ exponent
  · obtain ⟨k, rfl⟩ := Int.eq_ofNat_of_zero_le hexponent
    have hnat : (integer * 10 ^ width + fraction) * 10 ^ k = n * 10 ^ width := by
      rw [zpow_sub₀ hten, zpow_natCast, zpow_natCast, ← mul_div_assoc,
        div_eq_iff (pow_ne_zero _ hten)] at hvalue
      exact_mod_cast hvalue
    have hle : integer * 10 ^ width ≤ n * 10 ^ width := by
      rw [← hnat]
      calc integer * 10 ^ width ≤ integer * 10 ^ width + fraction := Nat.le_add_right _ _
        _ ≤ (integer * 10 ^ width + fraction) * 10 ^ k :=
          Nat.le_mul_of_pos_right _ (by positivity)
    have hsmall : integer ≤ n := Nat.le_of_mul_le_mul_right hle (by positivity)
    rwa [Nat.mod_eq_of_lt (by omega)] at hmod
  · obtain ⟨k, hk⟩ := Int.eq_ofNat_of_zero_le (show 0 ≤ -exponent by omega)
    have hpositive : 0 < k := by omega
    obtain rfl : exponent = -k := by omega
    have hnat : integer * 10 ^ width + fraction = n * 10 ^ k * 10 ^ width := by
      rw [zpow_sub₀ hten, zpow_neg, zpow_natCast, zpow_natCast, ← mul_div_assoc,
        div_eq_iff (pow_ne_zero _ hten), ← div_eq_mul_inv,
        div_eq_iff (pow_ne_zero _ hten)] at hvalue
      have hcast : integer * 10 ^ width + fraction = n * 10 ^ width * 10 ^ k := by
        exact_mod_cast hvalue
      rw [hcast]
      ring
    have hdvd : 10 ^ width ∣ fraction := by
      have hboth : 10 ^ width ∣ integer * 10 ^ width + fraction := by
        rw [hnat]
        exact Nat.dvd_mul_left _ _
      exact (Nat.dvd_add_right (Nat.dvd_mul_left _ _)).mp hboth
    have hzero : fraction = 0 := Nat.eq_zero_of_dvd_of_lt hdvd hfraction
    have hinteger : integer = n * 10 ^ k := by
      rw [hzero, Nat.add_zero] at hnat
      exact Nat.eq_of_mul_eq_mul_right (by positivity) hnat
    have hodd : Odd (10 ^ k - 1) := by
      apply Nat.Even.sub_odd (Nat.one_le_pow _ _ (by norm_num)) _ odd_one
      exact (by decide : Even 10).pow_of_ne_zero hpositive.ne'
    have hcoprime : Nat.Coprime (2 ^ w) (10 ^ k - 1) :=
      Nat.Coprime.pow_left w (Nat.coprime_two_left.mpr hodd)
    have hproduct : 2 ^ w ∣ n * (10 ^ k - 1) := by
      have hcongr : integer % 2 ^ w = n % 2 ^ w := by rw [hmod, Nat.mod_eq_of_lt hn]
      have hdiff := (Nat.modEq_iff_dvd' (show n ≤ integer by
        rw [hinteger]
        exact Nat.le_mul_of_pos_right _ (by positivity))).mp hcongr.symm
      rwa [hinteger, show n * 10 ^ k - n = n * (10 ^ k - 1) by rw [Nat.mul_sub, Nat.mul_one]]
        at hdiff
    have hn0 : n = 0 := Nat.eq_zero_of_dvd_of_lt (hcoprime.dvd_of_dvd_mul_right hproduct) hn
    rw [hinteger, hn0, Nat.zero_mul]

namespace JsonNumber

variable {number : JsonNumber} {n w : ℕ}

theorem mem_bytes {byte : UInt8} (h : byte ∈ number.bytes) :
    isDigit byte = true ∨ byte ∈ ([43, 45, 46, 69, 101] : Bytes) := by
  have hdigits : ∀ digits : Digits, byte ∈ digits.bytes → isDigit byte = true :=
    fun digits hbyte => List.all_eq_true.mp digits.digits byte hbyte
  have hexponent : ∀ exponent : Exponent, byte ∈ exponent.bytes →
      isDigit byte = true ∨ byte ∈ ([43, 45, 46, 69, 101] : Bytes) := by
    intro exponent hbyte
    rcases List.mem_cons.mp hbyte with rfl | hbyte
    · rcases exponent.isMark with hmark | hmark <;> simp [hmark]
    · rcases List.mem_append.mp hbyte with hbyte | hbyte
      · rcases exponent.isSign with hsign | hsign | hsign <;> simp_all
      · exact Or.inl (hdigits _ hbyte)
  rcases List.mem_append.mp h with h | h
  · rcases List.mem_append.mp h with h | h
    · cases hminus : number.minus <;> simp_all
    · exact Or.inl (hdigits _ h)
  · rcases List.mem_append.mp h with h | h
    · cases hfraction : number.fraction with
      | none => simp [hfraction] at h
      | some digits =>
        rw [hfraction] at h
        rcases List.mem_cons.mp h with rfl | h
        · simp
        · exact Or.inl (hdigits _ h)
    · cases hpart : number.exponent with
      | none => simp [hpart] at h
      | some exponent =>
        rw [hpart] at h
        exact hexponent exponent h

theorem mantissa_eq (number : JsonNumber) :
    number.mantissa = number.integer.value * 10 ^ number.fractionBytes.length +
      digitsValue number.fractionBytes := digitsValue_append _ _

theorem fraction_lt (number : JsonNumber) :
    digitsValue number.fractionBytes < 10 ^ number.fractionBytes.length := by
  apply digitsValue_lt
  unfold fractionBytes
  cases number.fraction with
  | none => rfl
  | some digits => exact digits.digits

/-- A natural number is written with a minus sign only if it is zero. -/
theorem minus_value (hminus : number.minus = true) (hvalue : number.value = n) :
    number.integer.value = 0 ∧ n = 0 := by
  have hpower : (0 : ℚ) < 10 ^ (number.exponentValue - number.fractionBytes.length) :=
    zpow_pos (by norm_num) _
  rw [value, if_pos hminus, neg_one_mul, neg_mul] at hvalue
  have hnonneg : (0 : ℚ) ≤ number.mantissa *
      10 ^ (number.exponentValue - number.fractionBytes.length) :=
    mul_nonneg (Nat.cast_nonneg _) hpower.le
  have hn : (n : ℚ) = 0 := by
    have hnat : (0 : ℚ) ≤ n := Nat.cast_nonneg n
    linarith
  rw [hn, neg_eq_zero, mul_eq_zero] at hvalue
  have hmantissa : number.mantissa = 0 := by
    exact_mod_cast hvalue.resolve_right hpower.ne'
  rw [mantissa_eq] at hmantissa
  have hproduct := Nat.eq_zero_of_add_eq_zero_right hmantissa
  refine ⟨?_, by exact_mod_cast hn⟩
  exact (Nat.mul_eq_zero.mp hproduct).resolve_right (by positivity)

/-- The integer part of a natural number is the number, or differs from it modulo 2 ^ w. -/
theorem integer_mod_iff (hvalue : number.value = n) (hn : n < 2 ^ w) :
    number.integer.value % 2 ^ w = n ↔ number.integer.value = n := by
  constructor
  · intro hmod
    cases hminus : number.minus with
    | true =>
      obtain ⟨hinteger, hzero⟩ := minus_value hminus hvalue
      rw [hinteger, hzero]
    | false =>
      rw [value, hminus, if_neg (by simp), one_mul, mantissa_eq] at hvalue
      exact integer_eq_of_mod number.fraction_lt hvalue hn hmod
  · intro heq
    rw [heq, Nat.mod_eq_of_lt hn]

end JsonNumber

end Numbers

section Reading

theorem Whitespace.isSpace (blanks : Whitespace) :
    ∀ byte ∈ blanks.bytes, isSpace byte = true := by
  intro byte hbyte
  have hblank := List.all_eq_true.mp blanks.blank byte hbyte
  simp only [decide_eq_true_eq] at hblank
  rcases hblank with rfl | rfl | rfl | rfl <;> rfl

theorem isDigit_not_isSpace {byte : UInt8} (h : isDigit byte = true) : isSpace byte = false := by
  simp only [isDigit, CommandLine.isSpace, decide_eq_true_eq, decide_eq_false_iff_not,
    UInt8.le_iff_toNat_le, ← UInt8.toNat_inj, UInt8.reduceToNat] at h ⊢
  omega

theorem takeWhile_of_head {text : Bytes}
    (h : ∀ byte, text.head? = some byte → isDigit byte = false) : text.takeWhile isDigit = [] := by
  cases text with
  | nil => rfl
  | cons byte rest => rw [List.takeWhile_cons, h byte rfl, if_neg (by simp)]

theorem dropWhile_append_barrier {p : UInt8 → Bool} {byte : UInt8} (h : p byte = false)
    (before after : Bytes) :
    (before ++ byte :: after).dropWhile p = before.dropWhile p ++ byte :: after := by
  induction before with
  | nil => exact List.dropWhile_cons_of_neg (by simp [h])
  | cons first before ih =>
    rw [List.cons_append, List.dropWhile_cons, List.dropWhile_cons, ih]
    split <;> rfl

theorem takeWhile_append_barrier {p : UInt8 → Bool} {byte : UInt8} (h : p byte = false)
    (before after : Bytes) : (before ++ byte :: after).takeWhile p = before.takeWhile p := by
  induction before with
  | nil => exact List.takeWhile_cons_of_neg (by simp [h])
  | cons first before ih => rw [List.cons_append, List.takeWhile_cons, List.takeWhile_cons, ih]

/-- No number goes on behind a colon. -/
theorem numeral_colon (before after : Bytes) :
    numeral (before ++ 58 :: after) = numeral before := by
  have hsign : ∀ text : Bytes, signOf (text ++ 58 :: after) = signOf text ∧
      (signOf text).length ≤ text.length := by
    intro text
    cases text with
    | nil => exact ⟨rfl, le_rfl⟩
    | cons first text =>
      rw [List.cons_append]
      unfold signOf
      split <;> simp_all
  unfold numeral
  rw [dropWhile_append_barrier (by decide)]
  obtain ⟨hsame, hlength⟩ := hsign (before.dropWhile CommandLine.isSpace)
  simp only [hsame, List.drop_append_of_le_length hlength, takeWhile_append_barrier
    (show isDigit 58 = false by decide)]

/-- The text of an object does not begin with a number. -/
theorem numeral_object (blanks : Whitespace) (rest : Bytes) :
    numeral (blanks.bytes ++ 123 :: rest) = none := by
  have hstart : (blanks.bytes ++ 123 :: rest).dropWhile CommandLine.isSpace = 123 :: rest := by
    rw [List.dropWhile_append_of_pos blanks.isSpace]
    exact List.dropWhile_cons_of_neg (by simp [CommandLine.isSpace])
  have hdigits : (123 :: rest).takeWhile isDigit = [] :=
    List.takeWhile_cons_of_neg (by simp [isDigit])
  unfold numeral
  rw [hstart]
  exact if_pos hdigits

/-- No digit follows the integer part. -/
theorem JsonNumber.tail_head {number : JsonNumber} {rest : Bytes}
    (hrest : ∀ byte, rest.head? = some byte → isDigit byte = false) :
    ∀ byte, (number.tail ++ rest).head? = some byte → isDigit byte = false := by
  intro byte hbyte
  unfold tail at hbyte
  cases hfraction : number.fraction with
  | some digits =>
    obtain rfl : 46 = byte := by simpa [hfraction] using hbyte
    rfl
  | none =>
    cases hexponent : number.exponent with
    | some exponent =>
      obtain rfl : exponent.mark = byte := by
        simpa [hfraction, hexponent, Exponent.bytes] using hbyte
      rcases exponent.isMark with hmark | hmark <;> rw [hmark] <;> rfl
    | none =>
      apply hrest
      simpa [hfraction, hexponent] using hbyte

/-- The number read from a JSON number is its integer part with its sign. -/
theorem numeral_number (blanks : Whitespace) (number : JsonNumber) {rest : Bytes}
    (hrest : ∀ byte, rest.head? = some byte → isDigit byte = false) :
    numeral (blanks.bytes ++ number.bytes ++ rest) =
      some (if number.minus then [45] else [], number.integer.value) := by
  obtain ⟨first, digits, hdigits⟩ := List.exists_cons_of_ne_nil number.integer.nonempty
  have hfirst : isDigit first = true :=
    List.all_eq_true.mp number.integer.digits first (by simp [hdigits])
  have hinteger : (number.integer.bytes ++ (number.tail ++ rest)).takeWhile isDigit =
      number.integer.bytes := by
    rw [List.takeWhile_append_of_pos (List.all_eq_true.mp number.integer.digits),
      takeWhile_of_head (JsonNumber.tail_head hrest), List.append_nil]
  have hblanks : ∀ text : Bytes, (blanks.bytes ++ text).dropWhile CommandLine.isSpace =
      text.dropWhile CommandLine.isSpace :=
    fun text => List.dropWhile_append_of_pos blanks.isSpace
  cases hminus : number.minus with
  | true =>
    have hbytes : number.bytes ++ rest =
        45 :: (number.integer.bytes ++ (number.tail ++ rest)) := by
      simp [JsonNumber.bytes, hminus]
    have hstart : (45 :: (number.integer.bytes ++ (number.tail ++ rest))).dropWhile
        CommandLine.isSpace = 45 :: (number.integer.bytes ++ (number.tail ++ rest)) :=
      List.dropWhile_cons_of_neg (by simp [CommandLine.isSpace])
    simp only [numeral, List.append_assoc, hblanks, hbytes, hstart, signOf, List.length_singleton,
      List.drop_succ_cons, List.drop_zero, hinteger, if_neg number.integer.nonempty]
    rfl
  | false =>
    have hbytes : number.bytes ++ rest = number.integer.bytes ++ (number.tail ++ rest) := by
      simp [JsonNumber.bytes, hminus]
    have hunsigned : UnsignedAt (blanks.bytes ++ number.bytes ++ rest) number.integer.value := by
      have hstart : (number.integer.bytes ++ (number.tail ++ rest)).dropWhile
          CommandLine.isSpace = number.integer.bytes ++ (number.tail ++ rest) := by
        rw [hdigits, List.cons_append]
        exact List.dropWhile_cons_of_neg (by simp [isDigit_not_isSpace hfirst])
      simp only [UnsignedAt, List.append_assoc, hblanks, hbytes, hstart, hinteger]
      exact ⟨number.integer.nonempty, rfl⟩
    exact numeral_unsigned_iff.mpr hunsigned

end Reading

end ProtobufKafkaBench.JsonTexts

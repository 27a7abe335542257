import ProtobufKafkaBench.ByteBuffers
import ProtobufKafkaBench.Exceptions

/-!
Command-line parsing as every benchmark does it: one pass over the arguments,
each flag either taking the next argument or standing alone. Numbers go through
`std::stoull` and `std::stoul` of a 64-bit platform, which skip white space,
accept a sign and ignore what follows the digits.
-/
namespace ProtobufKafkaBench.CommandLine

open ByteBuffers

/-- What a failed parse throws. -/
inductive CliError
  | runtimeError (what : Bytes)
  | invalidArgument
  | outOfRange
  deriving DecidableEq

def isSpace (byte : UInt8) : Bool := byte = 32 ∨ 9 ≤ byte ∧ byte ≤ 13

def isDigit (byte : UInt8) : Bool := 48 ≤ byte ∧ byte ≤ 57

def digitsValue (digits : Bytes) : ℕ :=
  digits.foldl (fun value digit => value * 10 + (digit.toNat - 48)) 0

/-- A leading sign, and the text after it. -/
def splitSign : Bytes → Bool × Bytes
  | 45 :: rest => (true, rest)
  | 43 :: rest => (false, rest)
  | text => (false, text)

/-- `std::stoull` in base 10; a minus sign negates in unsigned arithmetic. -/
def stoull (text : Bytes) : Except CliError (BitVec 64) :=
  let (negative, rest) := splitSign (text.dropWhile isSpace)
  let digits := rest.takeWhile isDigit
  if digits = [] then .error .invalidArgument
  else if 2 ^ 64 ≤ digitsValue digits then .error .outOfRange
  else
    let value := BitVec.ofNat 64 (digitsValue digits)
    .ok (if negative then -value else value)

/-- `std::stoul`; `unsigned long` has 64 bits as well. -/
def stoul (text : Bytes) : Except CliError (BitVec 64) := stoull text

section Numerals

/-- The sign a text begins with, as it is written. -/
def signOf : Bytes → Bytes
  | 45 :: _ => [45]
  | 43 :: _ => [43]
  | _ => []

/-- The sign and the value of the number at the start of a text, after white space. -/
def numeral (text : Bytes) : Option (Bytes × ℕ) :=
  let start := text.dropWhile isSpace
  let digits := (start.drop (signOf start).length).takeWhile isDigit
  if digits = [] then none else some (signOf start, digitsValue digits)

/-- After white space the text begins with digits of this value, and no sign. -/
def UnsignedAt (text : Bytes) (n : ℕ) : Prop :=
  (text.dropWhile isSpace).takeWhile isDigit ≠ [] ∧
    digitsValue ((text.dropWhile isSpace).takeWhile isDigit) = n

theorem splitSign_eq (text : Bytes) :
    splitSign text = (decide (signOf text = [45]), text.drop (signOf text).length) := by
  unfold splitSign
  split
  · simp [signOf]
  · simp [signOf]
  · next hminus hplus =>
    have hsign : signOf text = [] := by
      unfold signOf
      split
      · exact absurd rfl (hminus _)
      · exact absurd rfl (hplus _)
      · rfl
    simp [hsign]

/-- `stoull` succeeds on a number below 2 ^ 64, and negates it if it has a minus sign. -/
theorem stoull_eq_ok_iff {text : Bytes} {value : BitVec 64} :
    stoull text = .ok value ↔ ∃ sign n, numeral text = some (sign, n) ∧ n < 2 ^ 64 ∧
      value = if sign = [45] then -BitVec.ofNat 64 n else BitVec.ofNat 64 n := by
  have hsplit := splitSign_eq (text.dropWhile isSpace)
  simp only [stoull, numeral, hsplit]
  generalize signOf (text.dropWhile isSpace) = sign
  generalize ((text.dropWhile isSpace).drop sign.length).takeWhile isDigit = digits
  by_cases hdigits : digits = []
  · simp [hdigits]
  by_cases hlarge : 2 ^ 64 ≤ digitsValue digits
  · rw [if_neg hdigits, if_pos hlarge, if_neg hdigits]
    constructor
    · intro h
      cases h
    · intro h
      obtain ⟨sign', n, hnumeral, hn, -⟩ := h
      obtain ⟨-, rfl⟩ := Prod.mk.inj (Option.some.inj hnumeral)
      omega
  · rw [if_neg hdigits, if_neg hlarge, if_neg hdigits]
    constructor
    · intro h
      refine ⟨sign, digitsValue digits, rfl, by omega, ?_⟩
      simpa using (Except.ok.inj h).symm
    · intro h
      obtain ⟨sign', n, hnumeral, -, rfl⟩ := h
      obtain ⟨rfl, rfl⟩ := Prod.mk.inj (Option.some.inj hnumeral)
      simp

theorem numeral_unsigned_iff {text : Bytes} {n : ℕ} :
    numeral text = some ([], n) ↔ UnsignedAt text n := by
  unfold numeral UnsignedAt
  generalize text.dropWhile isSpace = start
  constructor
  · intro h
    by_cases hdigits : (start.drop (signOf start).length).takeWhile isDigit = []
    · simp [hdigits] at h
    · rw [if_neg hdigits] at h
      obtain ⟨hsign, hvalue⟩ := Prod.mk.inj (Option.some.inj h)
      rw [hsign] at hdigits hvalue
      exact ⟨hdigits, hvalue⟩
  · intro h
    obtain ⟨hdigits, rfl⟩ := h
    have hsign : signOf start = [] := by
      unfold signOf
      split
      · simp [isDigit] at hdigits
      · simp [isDigit] at hdigits
      · rfl
    simp [hsign, hdigits]

end Numerals

inductive Flag (Config : Type)
  | takesValue (store : Config → Bytes → Except CliError Config)
  | switch (store : Config → Config)

/-- The loop over the arguments after the program's name, for a table of flags. -/
def parseLoop {Config : Type} (flags : Bytes → Option (Flag Config)) :
    Config → List Bytes → Except CliError Config
  | config, [] => .ok config
  | config, arg :: rest =>
    match flags arg with
    | none => .error (.runtimeError (ascii "unknown argument: " ++ arg))
    | some (.switch store) => parseLoop flags (store config) rest
    | some (.takesValue store) =>
      match rest with
      | [] => .error (.runtimeError (ascii "missing value for " ++ arg))
      | value :: rest => do parseLoop flags (← store config value) rest

section Steps

open Exceptions

variable {Config : Type} {flags : Bytes → Option (Flag Config)} {config result : Config}
  {arg value : Bytes} {rest : List Bytes}

/-- A flag that stores its value as it is. -/
theorem parseLoop_text {set : Config → Bytes → Config}
    (hflag : flags arg = some (.takesValue fun config value => .ok (set config value)))
    (h : parseLoop flags config (arg :: value :: rest) = .ok result) :
    parseLoop flags (set config value) rest = .ok result := by
  unfold parseLoop at h
  rw [hflag] at h
  exact h

/-- A flag that stores the number in its value. -/
theorem parseLoop_number {read : Bytes → Except CliError (BitVec 64)}
    {set : Config → BitVec 64 → Config}
    (hflag : flags arg = some (.takesValue fun config value => do return set config (← read value)))
    (h : parseLoop flags config (arg :: value :: rest) = .ok result) :
    ∃ n, read value = .ok n ∧ parseLoop flags (set config n) rest = .ok result := by
  unfold parseLoop at h
  rw [hflag] at h
  obtain ⟨next, hnext, hrest⟩ := bind_eq_ok.mp h
  obtain ⟨n, hn, hstored⟩ := bind_eq_ok.mp hnext
  obtain rfl := Except.ok.inj hstored
  exact ⟨n, hn, hrest⟩

end Steps

section Tokens

open Exceptions

variable {Config : Type} {flags : Bytes → Option (Flag Config)}

/-- The flags of an argument list with the values they take, whatever the values are. -/
def tokens (flags : Bytes → Option (Flag Config)) : List Bytes → Option (List (Bytes × Bytes))
  | [] => some []
  | arg :: rest =>
    match flags arg with
    | none => none
    | some (.switch _) => (tokens flags rest).map ((arg, []) :: ·)
    | some (.takesValue _) =>
      match rest with
      | [] => none
      | value :: rest => (tokens flags rest).map ((arg, value) :: ·)

def storeToken (flags : Bytes → Option (Flag Config)) (config : Config) (token : Bytes × Bytes) :
    Except CliError Config :=
  match flags token.1 with
  | none => .error (.runtimeError (ascii "unknown argument: " ++ token.1))
  | some (.switch store) => .ok (store config)
  | some (.takesValue store) => store config token.2

variable {config result : Config} {arg value : Bytes} {args rest : List Bytes}

theorem tokens_unknown (h : flags arg = none) : tokens flags (arg :: rest) = none := by
  unfold tokens
  rw [h]

theorem tokens_switch {store : Config → Config} (h : flags arg = some (.switch store)) :
    tokens flags (arg :: rest) = (tokens flags rest).map ((arg, []) :: ·) := by
  rw [tokens.eq_def]
  simp only [h]

theorem tokens_no_value {store : Config → Bytes → Except CliError Config}
    (h : flags arg = some (.takesValue store)) : tokens flags [arg] = none := by
  unfold tokens
  rw [h]

theorem tokens_value {store : Config → Bytes → Except CliError Config}
    (h : flags arg = some (.takesValue store)) :
    tokens flags (arg :: value :: rest) = (tokens flags rest).map ((arg, value) :: ·) := by
  rw [tokens.eq_def]
  simp only [h]

/-- The loop over the arguments stores one token after the other. -/
theorem parseLoop_eq_ok_iff :
    parseLoop flags config args = .ok result ↔
      ∃ given, tokens flags args = some given ∧
        given.foldlM (storeToken flags) config = .ok result := by
  fun_induction parseLoop flags config args with
  | case1 config => simp [tokens, pure, Except.pure]
  | case2 config arg rest hflag => simp [tokens_unknown hflag]
  | case3 config arg rest store hflag ih =>
    rw [ih, tokens_switch hflag]
    simp only [Option.map_eq_some_iff, exists_exists_and_eq_and, List.foldlM_cons, storeToken,
      hflag]
    rfl
  | case4 config arg store hflag => simp [tokens_no_value hflag]
  | case5 config arg store hflag value rest ih =>
    rw [bind_eq_ok, tokens_value hflag]
    simp only [ih, Option.map_eq_some_iff, exists_exists_and_eq_and, List.foldlM_cons, storeToken,
      hflag, bind_eq_ok]
    constructor
    · intro h
      obtain ⟨middle, hmiddle, given, hgiven, hstored⟩ := h
      exact ⟨given, hgiven, middle, hmiddle, hstored⟩
    · intro h
      obtain ⟨given, hgiven, middle, hmiddle, hstored⟩ := h
      exact ⟨middle, hmiddle, given, hgiven, hstored⟩

/-- The value that came with the last occurrence of a flag. -/
def lastValue (given : List (Bytes × Bytes)) (name : Bytes) : Option Bytes :=
  given.reverse.lookup name

variable {α : Type} {get : Config → α} {name : Bytes} {read : Bytes → Except CliError α}

/-- The last value of a flag decides what it sets, if no other flag touches that. -/
theorem lastValue_decides
    (hset : ∀ config value result, storeToken flags config (name, value) = .ok result →
      read value = .ok (get result))
    (hframe : ∀ config token result, token.1 ≠ name →
      storeToken flags config token = .ok result → get result = get config)
    {given : List (Bytes × Bytes)} {config result : Config}
    (h : given.foldlM (storeToken flags) config = .ok result) :
    match lastValue given name with
    | none => get result = get config
    | some value => read value = .ok (get result) := by
  induction given using List.reverseRecOn generalizing result with
  | nil => exact congrArg get (Except.ok.inj h).symm
  | append_singleton given token ih =>
    rw [List.foldlM_append] at h
    obtain ⟨middle, hmiddle, hlast⟩ := bind_eq_ok.mp h
    obtain ⟨stored, hstored, hresult⟩ := bind_eq_ok.mp hlast
    obtain rfl := Except.ok.inj hresult
    obtain ⟨flag, value⟩ := token
    rw [lastValue, List.reverse_append, List.reverse_singleton, List.singleton_append,
      List.lookup_cons]
    by_cases hname : flag = name
    · subst hname
      rw [beq_self_eq_true]
      exact hset middle value stored hstored
    · rw [beq_false_of_ne (Ne.symm hname), hframe middle _ stored hname hstored]
      exact ih hmiddle

end Tokens

end ProtobufKafkaBench.CommandLine

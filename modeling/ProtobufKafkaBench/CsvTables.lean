import ProtobufKafkaBench.ByteBuffers
import Mathlib.Data.Rat.Defs
import Mathlib.Algebra.Order.Ring.Rat

/-!
Tables as a Python script sees them: `int` and `float` of a text, rows read as
dictionaries over the header and written back, and the exceptions that end a
script. Surplus values of a long record stay with the row, missing values of a
short one are `None`. Cells are ASCII text: digits and blanks of other scripts,
which `int` and `float` would take too, and the decoding of a file are left out.
-/
namespace ProtobufKafkaBench.CsvTables

open ByteBuffers

section Numbers

/-- What `int` and `float` pass over around an ASCII text; `str.strip` would take the
separators from 28 to 31 as well. -/
def isSpace (b : UInt8) : Bool := b = 32 ∨ (9 ≤ b ∧ b ≤ 13)

def isDigit (b : UInt8) : Bool := 48 ≤ b ∧ b ≤ 57

def strip (text : Bytes) : Bytes :=
  ((text.dropWhile isSpace).reverse.dropWhile isSpace).reverse

/-- Decimal digits, with single underscores between them. -/
def digitRun (value : ℕ) (afterDigit : Bool) : Bytes → Option ℕ
  | [] => if afterDigit then some value else none
  | b :: rest =>
    if isDigit b then digitRun (value * 10 + (b.toNat - 48)) true rest
    else if b = 95 ∧ afterDigit then digitRun value false rest
    else none

/-- An optional sign in front of something that reads as a number. -/
def signed {β : Type*} [Neg β] (read : Bytes → Option β) : Bytes → Option β
  | 43 :: rest => read rest
  | 45 :: rest => (read rest).map Neg.neg
  | text => read text

def pyInt (text : Bytes) : Option ℤ :=
  signed (fun digits => (digitRun 0 false digits).map Int.ofNat) (strip text)

/-- The part before the first byte that satisfies `stop`, and the part after it. -/
def cut (stop : UInt8 → Bool) (text : Bytes) : Bytes × Option Bytes :=
  match text.dropWhile fun b => !stop b with
  | [] => (text, none)
  | _ :: rest => (text.takeWhile fun b => !stop b, some rest)

/-- `digits`, `digits.`, `.digits` or `digits.digits`. -/
def decimalValue (text : Bytes) : Option ℚ :=
  match cut (· = 46) text with
  | (whole, none) => (digitRun 0 false whole).map fun n => (n : ℚ)
  | (whole, some fraction) => do
    let places := (fraction.filter isDigit).length
    let n ← if whole = [] then some 0 else digitRun 0 false whole
    let m ← if fraction = [] ∧ whole ≠ [] then some 0 else digitRun 0 false fraction
    return n + m / 10 ^ places

/-- `float` of a finite decimal text, in exact arithmetic. -/
def pyFloat (text : Bytes) : Option ℚ :=
  signed (fun unsigned =>
    match cut (fun b => b = 101 ∨ b = 69) unsigned with
    | (mantissa, none) => decimalValue mantissa
    | (mantissa, some exponent) => do
      let q ← decimalValue mantissa
      let e ← signed (fun digits => (digitRun 0 false digits).map Int.ofNat) exponent
      return if 0 ≤ e then q * 10 ^ e.natAbs else q / 10 ^ e.natAbs) (strip text)

theorem digitRun_append {digits : List ℕ} (h : ∀ digit ∈ digits, digit < 10) (value : ℕ)
    (afterDigit : Bool) (hsome : digits ≠ [] ∨ afterDigit = true) :
    digitRun value afterDigit (digits.map fun digit => UInt8.ofNat (48 + digit)) =
      some (digits.foldl (fun n digit => n * 10 + digit) value) := by
  induction digits generalizing value afterDigit with
  | nil =>
    have hafter : afterDigit = true := by simpa using hsome
    subst hafter
    rfl
  | cons digit rest ih =>
    have hlt := h digit List.mem_cons_self
    have hbyte : (UInt8.ofNat (48 + digit)).toNat = 48 + digit := by
      rw [UInt8.toNat_ofNat']
      exact Nat.mod_eq_of_lt (by omega)
    have hdigit : isDigit (UInt8.ofNat (48 + digit)) = true := by
      simp only [isDigit, decide_eq_true_eq, UInt8.le_iff_toNat_le, hbyte, UInt8.reduceToNat]
      omega
    rw [List.map_cons, digitRun, if_pos hdigit, hbyte, Nat.add_sub_cancel_left,
      ih (fun d hd => h d (List.mem_cons_of_mem digit hd)) _ _ (Or.inr rfl)]
    rfl

/-- A rendered number is read back. -/
theorem digitRun_decimalDigits (n : ℕ) : digitRun 0 false (decimalDigits n) = some n := by
  unfold decimalDigits
  by_cases hzero : n = 0
  · rw [if_pos hzero, hzero]
    rfl
  · have hne : (Nat.digits 10 n).reverse ≠ [] := by
      rw [ne_eq, List.reverse_eq_nil_iff, Nat.digits_eq_nil_iff_eq_zero]
      exact hzero
    have hlt : ∀ digit ∈ (Nat.digits 10 n).reverse, digit < 10 := by
      intro digit hdigit
      exact Nat.digits_lt_base (by decide) (List.mem_reverse.mp hdigit)
    rw [if_neg hzero, digitRun_append hlt 0 false (Or.inl hne), List.foldl_reverse]
    have hdigits := Nat.ofDigits_digits 10 n
    rw [Nat.ofDigits_eq_foldr] at hdigits
    refine congrArg some (Eq.trans ?_ hdigits)
    congr 1
    funext digit m
    simp [Nat.mul_comm, Nat.add_comm]

theorem decimalDigits_injective {m n : ℕ} (h : decimalDigits m = decimalDigits n) : m = n := by
  have hm := digitRun_decimalDigits m
  rw [h, digitRun_decimalDigits n] at hm
  exact (Option.some.inj hm).symm

example : pyInt (ascii " 1_000_000\n") = some 1000000 ∧ pyInt (ascii "1.5") = none := by decide

end Numbers

section Rows

inductive PyError
  | systemExit (text : Bytes)
  | keyError (name : Bytes)
  | typeError
  | valueError
  | zeroDivision
  /-- The csv reader met a line ending inside a field without quotes. -/
  | csvError

/-- A file as the csv reader sees it; an empty file has an empty header. -/
structure CsvFile where
  header : List Bytes
  records : List (List Bytes)

/-- A row of a dictionary reader; a missing value is `none`, and `surplus` holds
what the reader files under the key `None`. -/
structure DictRow where
  fields : List (Bytes × Option Bytes)
  surplus : List Bytes
  deriving Inhabited

def dictRow (header record : List Bytes) : DictRow where
  fields := header.zip
    (record.map some ++ List.replicate (header.length - record.length) none)
  surplus := record.drop header.length

def CsvFile.rows (file : CsvFile) : List DictRow := file.records.map (dictRow file.header)

namespace DictRow

/-- A repeated column name keeps its last value. -/
def lookup (row : DictRow) (name : Bytes) : Option (Option Bytes) :=
  row.fields.reverse.lookup name

/-- `row[name]`. -/
def item (row : DictRow) (name : Bytes) : Except PyError (Option Bytes) :=
  match row.lookup name with
  | none => .error (.keyError name)
  | some value => .ok value

theorem lookup_of_item {row : DictRow} {name : Bytes} {value : Option Bytes}
    (h : row.item name = .ok value) : row.lookup name = some value := by
  unfold item at h
  cases hlookup : row.lookup name with
  | none =>
    rw [hlookup] at h
    cases h
  | some found =>
    rw [hlookup] at h
    exact congrArg some (Except.ok.inj h)

/-- `int(row[name])`. -/
def intItem (row : DictRow) (name : Bytes) : Except PyError ℤ := do
  match ← row.item name with
  | none => .error .typeError
  | some text =>
    match pyInt text with
    | none => .error .valueError
    | some n => .ok n

/-- `float(row[name])`. -/
def floatItem (row : DictRow) (name : Bytes) : Except PyError ℚ := do
  match ← row.item name with
  | none => .error .typeError
  | some text =>
    match pyFloat text with
    | none => .error .valueError
    | some q => .ok q

/-- What a dictionary writer puts on a line: it refuses surplus values. -/
def written (row : DictRow) (header : List Bytes) : Except PyError (List Bytes) :=
  if row.surplus = [] then
    .ok (header.map fun name => ((row.lookup name).getD none).getD [])
  else .error .valueError

end DictRow

/-- `writerows`: the lines written before the first row that is refused, if any. -/
def writeRows (header : List Bytes) : List DictRow → List (List Bytes) × Except PyError Unit
  | [] => ([], .ok ())
  | row :: rest =>
    match row.written header with
    | .error error => ([], .error error)
    | .ok line =>
      let more := writeRows header rest
      (line :: more.1, more.2)

/-- Rows that are written as they were read come out as the same records. -/
theorem writeRows_records {header : List Bytes} {records : List (List Bytes)}
    (h : ∀ record ∈ records, (dictRow header record).written header = .ok record) :
    writeRows header (records.map (dictRow header)) = (records, .ok ()) := by
  induction records with
  | nil => rfl
  | cons record rest ih =>
    have hrest := ih fun r hr => h r (List.mem_cons_of_mem record hr)
    simp only [List.map_cons, writeRows, h record List.mem_cons_self, hrest]

theorem lookup_of_mem {entries : List (Bytes × Option Bytes)} {name : Bytes}
    {value : Option Bytes} (hnodup : (entries.map Prod.fst).Nodup)
    (hmem : (name, value) ∈ entries) : entries.lookup name = some value := by
  obtain ⟨before, after, rfl⟩ := List.append_of_mem hmem
  rw [List.lookup_eq_some_iff]
  refine ⟨before, after, rfl, ?_⟩
  intro entry hentry
  rw [List.map_append, List.map_cons] at hnodup
  have hdisjoint := List.disjoint_of_nodup_append hnodup
  have hne : name ≠ entry.1 := by
    intro heq
    exact hdisjoint (List.mem_map_of_mem hentry) (heq ▸ List.mem_cons_self)
  simpa using hne

/-- Distinct column names and full records are enough for that. -/
theorem written_dictRow {header record : List Bytes} (hnodup : header.Nodup)
    (hlength : record.length = header.length) :
    (dictRow header record).written header = .ok record := by
  have hfields : (dictRow header record).fields = header.zip (record.map some) := by
    simp [dictRow, hlength]
  have hsurplus : (dictRow header record).surplus = [] := by
    simp [dictRow, ← hlength]
  have hkeys : ((header.zip (record.map some)).reverse.map Prod.fst).Nodup := by
    rw [List.map_reverse, List.map_fst_zip (by rw [List.length_map, hlength]),
      List.nodup_reverse]
    exact hnodup
  rw [DictRow.written, if_pos hsurplus]
  refine congrArg Except.ok ?_
  apply List.ext_getElem
  · rw [List.length_map, hlength]
  · intro i hi hi'
    have hheader : i < header.length := by rwa [← hlength]
    have hmem : (header[i], some record[i]) ∈ (header.zip (record.map some)).reverse := by
      rw [List.mem_reverse, List.mem_iff_getElem]
      exact ⟨i, by simpa [hlength] using hi', by simp⟩
    rw [List.getElem_map, DictRow.lookup, hfields, lookup_of_mem hkeys hmem]
    rfl

end Rows

end ProtobufKafkaBench.CsvTables

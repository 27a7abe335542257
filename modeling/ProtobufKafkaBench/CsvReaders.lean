import ProtobufKafkaBench.CsvTables
import Mathlib.Data.List.TakeWhile

/-!
From the text of a table to its records, as the csv reader of a Python script gets them. The
reader takes one line after the other, each with its line ending, and goes from state to state by
the bytes of a line and by its end. Fields without separators, quotes and line endings come back
as they were written, whatever else is in them. The reader's limit on the length of a field is
left out.
-/
namespace ProtobufKafkaBench.CsvReaders

open ByteBuffers CsvTables

section Reader

inductive State
  | startRecord
  | startField
  | inField
  | inQuoted
  | quoteInQuoted
  | eatNewline
  deriving DecidableEq

/-- The field and the fields read so far. -/
structure Reader where
  state : State := .startRecord
  field : Bytes := []
  fields : List Bytes := []

def isNewline (b : UInt8) : Bool := b = 10 ∨ b = 13

namespace Reader

def save (reader : Reader) (state : State) : Reader where
  state
  fields := reader.fields ++ [reader.field]

def add (reader : Reader) (b : UInt8) (state : State) : Reader :=
  { reader with state, field := reader.field ++ [b] }

/-- A byte where a field may begin. -/
def first (reader : Reader) (b : UInt8) : Reader :=
  if isNewline b then reader.save .eatNewline
  else if b = 34 then { reader with state := .inQuoted }
  else if b = 44 then reader.save .startField
  else reader.add b .inField

def byte (reader : Reader) (b : UInt8) : Option Reader :=
  match reader.state with
  | .startRecord =>
    if isNewline b then some { reader with state := .eatNewline } else some (reader.first b)
  | .startField => some (reader.first b)
  | .inField =>
    if isNewline b then some (reader.save .eatNewline)
    else if b = 44 then some (reader.save .startField)
    else some (reader.add b .inField)
  | .inQuoted =>
    if b = 34 then some { reader with state := .quoteInQuoted } else some (reader.add b .inQuoted)
  | .quoteInQuoted =>
    if b = 34 then some (reader.add b .inQuoted)
    else if b = 44 then some (reader.save .startField)
    else if isNewline b then some (reader.save .eatNewline)
    else some (reader.add b .inField)
  -- a carriage return or a newline may only be followed by more of them
  | .eatNewline => if isNewline b then some reader else none

def endOfLine (reader : Reader) : Reader :=
  match reader.state with
  | .startRecord | .inQuoted => reader
  | .startField | .inField | .quoteInQuoted => reader.save .startRecord
  | .eatNewline => { reader with state := .startRecord }

def line (reader : Reader) (text : Bytes) : Option Reader :=
  (text.foldlM byte reader).map endOfLine

end Reader

/-- The lines of a file that is opened without translation of line endings. -/
def splitLines (line : Bytes) : Bytes → List Bytes
  | [] => if line = [] then [] else [line]
  | 13 :: 10 :: rest => (line ++ [13, 10]) :: splitLines [] rest
  | 13 :: rest => (line ++ [13]) :: splitLines [] rest
  | 10 :: rest => (line ++ [10]) :: splitLines [] rest
  | b :: rest => splitLines (line ++ [b]) rest

/-- A record ends where a line ends outside quotes; a quoted field that is still open at the end
of the text is taken as it is. -/
def recordsFrom (reader : Reader) : List Bytes → Option (List (List Bytes))
  | [] =>
    if reader.field ≠ [] ∨ reader.state = .inQuoted then
      some [(reader.save .startRecord).fields]
    else some []
  | text :: rest => do
    let after ← reader.line text
    if after.state = .startRecord then return after.fields :: (← recordsFrom {} rest)
    else recordsFrom after rest

def readRecords (text : Bytes) : Option (List (List Bytes)) := recordsFrom {} (splitLines [] text)

/-- What a dictionary reader takes from the text: the first record is the header, and empty
records after it are passed over. -/
def readTable (text : Bytes) : Option CsvFile :=
  (readRecords text).map fun
    | [] => { header := [], records := [] }
    | header :: records => { header, records := records.filter (· ≠ []) }

end Reader

section Plain

/-- Nothing in the field means anything to the reader. -/
def PlainField (field : Bytes) : Prop := ∀ b ∈ field, b ≠ 44 ∧ b ≠ 34 ∧ b ≠ 10 ∧ b ≠ 13

/-- For fields that are to be computed with. -/
theorem plainField_of_all {field : Bytes}
    (h : (field.all fun b => b ≠ 44 ∧ b ≠ 34 ∧ b ≠ 10 ∧ b ≠ 13) = true) : PlainField field :=
  fun b hb => of_decide_eq_true (List.all_eq_true.mp h b hb)

/-- A line of a table. -/
def recordText (record : List Bytes) : Bytes := [44].intercalate record ++ [10]

/-- Plain fields, at least one; a single field must not be empty, which an empty line would be. -/
def PlainRecord (record : List Bytes) : Prop :=
  record ≠ [] ∧ record ≠ [[]] ∧ ∀ field ∈ record, PlainField field

theorem plainRecord_of_all {record : List Bytes} (hlength : 1 < record.length)
    (h : (record.all fun field =>
      field.all fun b => b ≠ 44 ∧ b ≠ 34 ∧ b ≠ 10 ∧ b ≠ 13) = true) : PlainRecord record := by
  refine ⟨?_, ?_, fun field hfield => plainField_of_all (List.all_eq_true.mp h field hfield)⟩
  · rintro rfl
    simp at hlength
  · rintro rfl
    simp at hlength

variable {field text : Bytes} {fields record : List Bytes} {b : UInt8}

theorem not_newline (h : b ≠ 44 ∧ b ≠ 34 ∧ b ≠ 10 ∧ b ≠ 13) : isNewline b = false := by
  simp [isNewline, h.2.2.1, h.2.2.2]

theorem byte_inField (h : b ≠ 44 ∧ b ≠ 34 ∧ b ≠ 10 ∧ b ≠ 13) :
    Reader.byte ⟨.inField, field, fields⟩ b = some ⟨.inField, field ++ [b], fields⟩ := by
  simp [Reader.byte, Reader.add, not_newline h, h.1]

theorem bytes_inField (h : PlainField text) :
    text.foldlM Reader.byte ⟨.inField, field, fields⟩ =
      some ⟨.inField, field ++ text, fields⟩ := by
  induction text generalizing field with
  | nil => rw [List.append_nil]; rfl
  | cons b rest ih =>
    obtain ⟨hb, hrest⟩ := List.forall_mem_cons.mp h
    rw [List.foldlM_cons, byte_inField hb]
    change rest.foldlM Reader.byte ⟨.inField, field ++ [b], fields⟩ = _
    rw [ih hrest, List.append_assoc]
    rfl

/-- Where a field may begin: at the start of a record, or after a comma. -/
def Fresh (reader : Reader) (fields : List Bytes) : Prop :=
  reader.field = [] ∧ reader.fields = fields ∧
    (reader.state = .startRecord ∨ reader.state = .startField)

theorem byte_fresh {reader : Reader} (hfresh : Fresh reader fields) (h : isNewline b = false) :
    reader.byte b = some (reader.first b) := by
  unfold Reader.byte
  rcases hfresh.2.2 with hstate | hstate <;> simp [hstate, h]

/-- A field up to its comma. -/
theorem bytes_comma {reader : Reader} (hfresh : Fresh reader fields) (h : PlainField field) :
    ∃ after, (field ++ [44]).foldlM Reader.byte reader = some after ∧
      Fresh after (fields ++ [field]) ∧ after.state = .startField := by
  refine ⟨⟨.startField, [], fields ++ [field]⟩, ?_, ⟨rfl, rfl, .inr rfl⟩, rfl⟩
  obtain ⟨hfield, hfields, -⟩ := id hfresh
  cases field with
  | nil =>
    rw [List.nil_append, List.foldlM_cons, byte_fresh hfresh (by decide)]
    simp [Reader.first, isNewline, Reader.save, hfield, hfields]
  | cons b rest =>
    obtain ⟨hb, hrest⟩ := List.forall_mem_cons.mp h
    have hfirst : reader.first b = ⟨.inField, [b], fields⟩ := by
      simp [Reader.first, not_newline hb, hb.1, hb.2.1, Reader.add, hfield, hfields]
    rw [List.cons_append, List.foldlM_cons, byte_fresh hfresh (not_newline hb), hfirst]
    change (rest ++ [44]).foldlM Reader.byte ⟨.inField, [b], fields⟩ = _
    rw [List.foldlM_append, bytes_inField hrest]
    simp [Reader.byte, isNewline, Reader.save]

/-- A field up to the end of its line, where it is not the only field or not empty. -/
theorem bytes_newline {reader : Reader} (hfresh : Fresh reader fields) (h : PlainField field)
    (hnot : reader.state = .startField ∨ field ≠ []) :
    reader.line (field ++ [10]) = some ⟨.startRecord, [], fields ++ [field]⟩ := by
  obtain ⟨hfield, hfields, -⟩ := id hfresh
  unfold Reader.line
  cases field with
  | nil =>
    have hstate := hnot.resolve_right fun hne => hne rfl
    simp [Reader.byte, hstate, Reader.first, isNewline, Reader.save, hfield, hfields,
      Reader.endOfLine]
  | cons b rest =>
    obtain ⟨hb, hrest⟩ := List.forall_mem_cons.mp h
    have hfirst : reader.first b = ⟨.inField, [b], fields⟩ := by
      simp [Reader.first, not_newline hb, hb.1, hb.2.1, Reader.add, hfield, hfields]
    rw [List.cons_append, List.foldlM_cons, byte_fresh hfresh (not_newline hb), hfirst]
    change ((rest ++ [10]).foldlM Reader.byte ⟨.inField, [b], fields⟩).map _ = _
    rw [List.foldlM_append, bytes_inField hrest]
    simp [Reader.byte, isNewline, Reader.save, Reader.endOfLine]

theorem line_recordText_from {reader : Reader} (hfresh : Fresh reader fields)
    (hne : record ≠ []) (hnot : reader.state = .startField ∨ record ≠ [[]])
    (h : ∀ field ∈ record, PlainField field) :
    reader.line (recordText record) = some ⟨.startRecord, [], fields ++ record⟩ := by
  induction record generalizing reader fields with
  | nil => exact absurd rfl hne
  | cons field rest ih =>
    obtain ⟨hfield, hrest⟩ := List.forall_mem_cons.mp h
    cases rest with
    | nil =>
      have htext : recordText [field] = field ++ [10] := by simp [recordText]
      rw [htext]
      exact bytes_newline hfresh hfield (hnot.imp id fun hne heq => hne (by rw [heq]))
    | cons next rest =>
      have htext : recordText (field :: next :: rest) =
          (field ++ [44]) ++ recordText (next :: rest) := by
        simp [recordText]
      obtain ⟨after, hafter, hfreshAfter, hstate⟩ := bytes_comma hfresh hfield
      have hline := ih hfreshAfter (List.cons_ne_nil _ _) (.inl hstate) hrest
      unfold Reader.line at hline ⊢
      rw [htext, List.foldlM_append, hafter]
      change ((recordText (next :: rest)).foldlM Reader.byte after).map _ = _
      rw [hline, List.append_assoc]
      rfl

theorem line_recordText (h : PlainRecord record) :
    Reader.line {} (recordText record) = some ⟨.startRecord, [], record⟩ := by
  have hfresh : Fresh {} [] := ⟨rfl, rfl, .inl rfl⟩
  exact line_recordText_from hfresh h.1 (.inr h.2.1) h.2.2

theorem splitLines_plain (line : Bytes) {piece rest : Bytes} (h : ∀ b ∈ piece, b ≠ 10 ∧ b ≠ 13) :
    splitLines line (piece ++ 10 :: rest) = (line ++ piece ++ [10]) :: splitLines [] rest := by
  induction piece generalizing line with
  | nil => rw [List.append_nil]; rfl
  | cons b more ih =>
    obtain ⟨hb, hmore⟩ := List.forall_mem_cons.mp h
    rw [List.cons_append, splitLines.eq_def]
    split
    all_goals simp_all

theorem mem_intercalate (h : b ∈ [44].intercalate record) :
    b = 44 ∨ ∃ field ∈ record, b ∈ field := by
  induction record with
  | nil => cases h
  | cons field rest ih =>
    cases rest with
    | nil =>
      rw [List.intercalate_singleton] at h
      exact .inr ⟨field, List.mem_cons_self, h⟩
    | cons next rest =>
      rw [List.intercalate_cons_cons, List.append_assoc] at h
      rcases List.mem_append.mp h with hfield | hrest
      · exact .inr ⟨field, List.mem_cons_self, hfield⟩
      · rcases List.mem_cons.mp hrest with hcomma | hrest
        · exact .inl hcomma
        · refine (ih hrest).imp id fun ⟨other, hother, hb⟩ => ?_
          exact ⟨other, List.mem_cons_of_mem field hother, hb⟩

/-- The records of a text are those that it was written from. -/
theorem readRecords_text {records : List (List Bytes)}
    (h : ∀ record ∈ records, PlainRecord record) :
    readRecords (records.flatMap recordText) = some records := by
  unfold readRecords
  induction records with
  | nil => rfl
  | cons record rest ih =>
    obtain ⟨hrecord, hrest⟩ := List.forall_mem_cons.mp h
    have hplain : ∀ b ∈ [44].intercalate record, b ≠ 10 ∧ b ≠ 13 := by
      intro b hb
      rcases mem_intercalate hb with rfl | ⟨field, hfield, hb⟩
      · decide
      · exact (hrecord.2.2 field hfield b hb).2.2
    have hlines : splitLines [] ((record :: rest).flatMap recordText) =
        recordText record :: splitLines [] (rest.flatMap recordText) := by
      rw [List.flatMap_cons, recordText, List.append_assoc]
      exact splitLines_plain [] hplain
    rw [hlines, recordsFrom, line_recordText hrecord]
    change (recordsFrom {} _).bind _ = _
    rw [ih hrest]
    rfl

/-- The table of a header and records. -/
theorem readTable_text {header : List Bytes} {records : List (List Bytes)}
    (hheader : PlainRecord header) (h : ∀ record ∈ records, PlainRecord record) :
    readTable ((header :: records).flatMap recordText) = some { header, records } := by
  have hall := List.forall_mem_cons.mpr ⟨hheader, h⟩
  unfold readTable
  rw [readRecords_text hall]
  have hkept : records.filter (· ≠ []) = records :=
    List.filter_eq_self.mpr fun record hrecord => decide_eq_true (h record hrecord).1
  exact congrArg (fun kept => some (⟨header, kept⟩ : CsvFile)) hkept

example : readRecords (ascii "a,\"b,\"\"c\"\n\n1,2") = some [[ascii "a", ascii "b,\"c"], [],
    [ascii "1", ascii "2"]] := by decide

end Plain

section Numbers

theorem isSpace_of_range {b : UInt8} (h : 45 ≤ b.toNat ∧ b.toNat ≤ 57) : isSpace b = false := by
  simp only [isSpace, decide_eq_false_iff_not, ← UInt8.toNat_inj, UInt8.le_iff_toNat_le,
    UInt8.reduceToNat]
  omega

theorem strip_eq_self {text : Bytes} (h : ∀ b ∈ text, isSpace b = false) : strip text = text := by
  have hkept : ∀ bytes : Bytes, (∀ b ∈ bytes, isSpace b = false) →
      bytes.dropWhile isSpace = bytes := by
    intro bytes hbytes
    cases bytes with
    | nil => rfl
    | cons b rest => rw [List.dropWhile_cons, hbytes b List.mem_cons_self]; rfl
  unfold strip
  rw [hkept text h, hkept text.reverse fun b hb => h b (List.mem_reverse.mp hb),
    List.reverse_reverse]

theorem strip_decimalDigits (n : ℕ) : strip (decimalDigits n) = decimalDigits n := by
  refine strip_eq_self fun b hb => isSpace_of_range ?_
  have hdigit := decimalDigits_range hb
  omega

/-- A count has no sign. -/
theorem signed_decimalDigits {β : Type*} [Neg β] (read : Bytes → Option β) (n : ℕ) :
    signed read (decimalDigits n) = read (decimalDigits n) := by
  cases hdigits : decimalDigits n with
  | nil => rfl
  | cons b rest =>
    have hb : b ∈ decimalDigits n := hdigits ▸ List.mem_cons_self
    have hplus : b ≠ 43 := by
      rintro rfl
      exact absurd (decimalDigits_range hb).1 (by decide)
    have hminus : b ≠ 45 := by
      rintro rfl
      exact absurd (decimalDigits_range hb).1 (by decide)
    unfold signed
    split <;> simp_all

/-- A count is read back. -/
theorem pyInt_decimalDigits (n : ℕ) : pyInt (decimalDigits n) = some (n : ℤ) := by
  rw [pyInt, strip_decimalDigits, signed_decimalDigits, digitRun_decimalDigits]
  rfl

theorem cut_eq_self {text : Bytes} {stop : UInt8 → Bool} (h : ∀ b ∈ text, stop b = false) :
    cut stop text = (text, none) := by
  have hrest : text.dropWhile (fun b => !stop b) = [] :=
    List.dropWhile_eq_nil_iff.mpr fun b hb => by rw [h b hb]; rfl
  unfold cut
  rw [hrest]

/-- It is the same number as a float. -/
theorem pyFloat_decimalDigits (n : ℕ) : pyFloat (decimalDigits n) = some (n : ℚ) := by
  have hother : ∀ stop : UInt8, (stop.toNat < 48 ∨ 57 < stop.toNat) →
      ∀ b ∈ decimalDigits n, b ≠ stop := by
    rintro stop hstop b hb rfl
    have hdigit := decimalDigits_range hb
    omega
  have hexponent : cut (fun b => b = 101 ∨ b = 69) (decimalDigits n) = (decimalDigits n, none) := by
    refine cut_eq_self fun b hb => decide_eq_false ?_
    rintro (hlower | hupper)
    · exact hother 101 (Or.inr (by decide)) b hb hlower
    · exact hother 69 (Or.inr (by decide)) b hb hupper
  have hpoint : cut (· = 46) (decimalDigits n) = (decimalDigits n, none) :=
    cut_eq_self fun b hb => decide_eq_false (hother 46 (Or.inl (by decide)) b hb)
  rw [pyFloat, strip_decimalDigits, signed_decimalDigits, hexponent]
  simp only [decimalValue, hpoint, digitRun_decimalDigits]
  rfl

theorem intItem_of_item {row : DictRow} {name text : Bytes} {n : ℤ}
    (h : row.item name = .ok (some text)) (hn : pyInt text = some n) :
    row.intItem name = .ok n := by
  unfold DictRow.intItem
  rw [h]
  simp [bind, Except.bind, hn]

theorem floatItem_of_item {row : DictRow} {name text : Bytes} {q : ℚ}
    (h : row.item name = .ok (some text)) (hq : pyFloat text = some q) :
    row.floatItem name = .ok q := by
  unfold DictRow.floatItem
  rw [h]
  simp [bind, Except.bind, hq]

theorem plainField_of_range {field : Bytes} (h : ∀ b ∈ field, 45 ≤ b.toNat ∧ b.toNat ≤ 57) :
    PlainField field := by
  intro b hb
  have hrange := h b hb
  simp only [ne_eq, ← UInt8.toNat_inj, UInt8.reduceToNat]
  omega

theorem plainField_decimalDigits (n : ℕ) : PlainField (decimalDigits n) :=
  plainField_of_range fun _ hb => by
    have hdigit := decimalDigits_range hb
    omega

theorem plainField_decimalText (z : ℤ) : PlainField (decimalText z) := by
  refine plainField_of_range fun b hb => ?_
  have htext := decimalText_range hb
  omega

end Numbers

section Streams

/-- A number in thousandths, rounded to the nearest; a half goes to the even one. -/
def thousandths (q : ℚ) : ℕ :=
  let whole := q.num.natAbs * 1000 / q.den
  let rest := q.num.natAbs * 1000 % q.den
  if 2 * rest < q.den ∨ 2 * rest = q.den ∧ whole % 2 = 0 then whole else whole + 1

/-- `std::fixed` with three places. -/
def fixedText (q : ℚ) : Bytes :=
  (if q < 0 then ascii "-" else []) ++ decimalDigits (thousandths q / 1000) ++ ascii "." ++
    [thousandths q / 100 % 10, thousandths q / 10 % 10, thousandths q % 10].map
      fun digit => UInt8.ofNat (48 + digit)

example : fixedText (2 / 3) = ascii "0.667" := by decide +kernel

theorem fixedText_plain (q : ℚ) : PlainField (fixedText q) := by
  refine plainField_of_range fun b hb => ?_
  simp only [fixedText, List.mem_append, List.mem_map] at hb
  rcases hb with ((hsign | hwhole) | hpoint) | ⟨digit, hdigit, rfl⟩
  · split at hsign
    · obtain rfl := List.mem_singleton.mp hsign
      decide
    · exact absurd hsign List.not_mem_nil
  · have hrange := decimalDigits_range hwhole
    omega
  · obtain rfl := List.mem_singleton.mp hpoint
    decide
  · have hlt : digit < 10 := by
      simp only [List.mem_cons, List.not_mem_nil, or_false] at hdigit
      omega
    rw [UInt8.toNat_ofNat', Nat.mod_eq_of_lt (by omega)]
    omega

end Streams

end ProtobufKafkaBench.CsvReaders

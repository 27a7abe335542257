import ProtobufKafkaBench.ByteMemory
import ProtobufKafkaBench.ProcessEvent

/-!
The accesses of the formatters and of `process_event` to their fixed arrays. The
formatters check no bound: they store wherever `position` points and load up to the
NUL that they find. Their accesses are recorded here over an unbounded memory, and
all of them lie inside the arrays, with the line that the checked model has.
-/
namespace ProtobufKafkaBench.MarketEvents

open ByteBuffers ByteMemory WireFormat AsyncPipeline

section Accesses

/-- A load from a byte of a text field, or a store to a byte of the output array. -/
inductive Access
  | load (field index : ℕ)
  | store (index : ℕ)

/-- The memory from the output array on, `position`, and the accesses so far. -/
structure Writing where
  memory : Memory
  position : ℕ
  accesses : List Access

namespace Writing

/-- `output[position++] = byte`. -/
def put (w : Writing) (byte : UInt8) : Writing where
  memory := fill w.memory w.position [byte]
  position := w.position + 1
  accesses := w.accesses ++ [.store w.position]

def separate (w : Writing) : Writing := if w.position ≠ 0 then w.put 124 else w

/-- The loads of `std::strlen` that finds `length`: all bytes up to the NUL and the NUL. -/
def scan (w : Writing) (field length : ℕ) : Writing :=
  { w with accesses := w.accesses ++ (List.range (length + 1)).map (Access.load field) }

/-- `std::memcpy` to the position, byte by byte; `source` are the loads for a byte. -/
def copy (w : Writing) (source : ℕ → List Access) (data : Bytes) : Writing where
  memory := fill w.memory w.position data
  position := w.position + data.length
  accesses := w.accesses ++
    (List.range data.length).flatMap fun i => source i ++ [.store (w.position + i)]

end Writing

/-- `std::strlen`. Where there is no NUL in the array it is at least the array's length. -/
def strlen (chars : Bytes) : ℕ := chars.idxOf 0

/-- `append` of a C string. -/
def accessText (w : Writing) (field : ℕ) (text : Text) : Writing :=
  let length := strlen text.chars
  (w.separate.scan field length).copy (fun i => [.load field i]) (text.chars.take length)

/-- `append` of an integer. What is loaded then are digits from the stack. -/
def accessInt64 (w : Writing) (value : Int64) : Except Fault Writing :=
  let w := w.separate
  match toChars 32 value with
  | some digits => .ok (w.copy (fun _ => []) digits)
  | none => .error .integerFormattingFailed

/-- A member of an event as a formatter appends it; text fields are numbered. -/
inductive Column
  | chars (field : ℕ) (value : Text)
  | int64 (value : Int64)

def accessColumn (w : Writing) : Column → Except Fault Writing
  | .chars field value => .ok (accessText w field value)
  | .int64 value => accessInt64 w value

/-- The accesses of a formatter that appends these columns and a newline. -/
def accessColumns (columns : List Column) (memory : Memory) : Except Fault Writing := do
  let w ← columns.foldlM accessColumn ⟨memory, 0, []⟩
  return w.put 10

def IntEvent.accesses (event : IntEvent) (memory : Memory) : Except Fault Writing :=
  accessColumns (.chars 0 event.symbol :: (List.ofFn event.values).map .int64) memory

def DecimalEvent.accesses (event : DecimalEvent) (memory : Memory) : Except Fault Writing :=
  accessColumns (.chars 0 event.symbol ::
    (List.ofFn fun i => .chars (i + 1) (event.decimals i))) memory

def WideEvent.accesses (event : WideEvent) (memory : Memory) : Except Fault Writing :=
  accessColumns (List.ofFn fun i => .chars i (event.fields i)) memory

end Accesses

section Bounds

/-- A store is below `bound`, and a load is of a field with a NUL, up to that NUL. -/
def Access.Within (fields : List Text) (bound : ℕ) : Access → Prop
  | .load field index => ∃ text, fields[field]? = some text ∧
      index ≤ strlen text.chars ∧ text.chars[strlen text.chars]? = some 0
  | .store index => index < bound

theorem Access.Within.mono {fields : List Text} {bound bound' : ℕ} {access : Access}
    (h : access.Within fields bound) (hle : bound ≤ bound') : access.Within fields bound' := by
  cases access with
  | load field index => exact h
  | store index => exact lt_of_lt_of_le h hle

/-- The text has been written from the start on, by accesses inside the arrays. -/
structure Writing.Holds (w : Writing) (fields : List Text) (text : Bytes) : Prop where
  position : w.position = text.length
  read : read w.memory 0 text.length = text
  within : ∀ access ∈ w.accesses, access.Within fields w.position

variable {fields : List Text} {w : Writing} {text : Bytes}

theorem Writing.Holds.copy (h : w.Holds fields text) (source : ℕ → List Access) (data : Bytes)
    (hsource : ∀ i < data.length, ∀ access ∈ source i,
      access.Within fields (w.position + data.length)) :
    (w.copy source data).Holds fields (text ++ data) where
  position := by simp only [Writing.copy, h.position, List.length_append]
  read := by
    have hread := read_fill_append h.read data
    simpa only [Writing.copy, h.position, Nat.zero_add] using hread
  within := by
    intro access haccess
    obtain hold | hnew := List.mem_append.mp haccess
    · exact (h.within access hold).mono (Nat.le_add_right _ _)
    · obtain ⟨i, hi, haccess⟩ := List.mem_flatMap.mp hnew
      have hlt := List.mem_range.mp hi
      obtain hload | hstore := List.mem_append.mp haccess
      · exact hsource i hlt access hload
      · obtain rfl := List.mem_singleton.mp hstore
        exact Nat.add_lt_add_left hlt _

theorem Writing.Holds.put (h : w.Holds fields text) (byte : UInt8) :
    (w.put byte).Holds fields (text ++ [byte]) := by
  have hcopy := h.copy (fun _ => []) [byte]
    (fun _ _ access haccess => absurd haccess List.not_mem_nil)
  simpa [Writing.put, Writing.copy] using hcopy

theorem Writing.Holds.separate (h : w.Holds fields text) :
    w.separate.Holds fields (if text = [] then [] else text ++ [124]) := by
  have hposition := h.position
  by_cases hempty : text = []
  · have hzero : w.position = 0 := by simpa [hempty] using hposition
    simpa [Writing.separate, hzero, hempty] using h
  · have hne : w.position ≠ 0 := by simpa [hposition] using hempty
    simpa [Writing.separate, hne, hempty] using h.put 124

theorem Writing.Holds.scan (h : w.Holds fields text) {field length : ℕ}
    (hloads : ∀ i ≤ length, (Access.load field i).Within fields w.position) :
    (w.scan field length).Holds fields text where
  position := h.position
  read := h.read
  within := by
    intro access haccess
    obtain hold | hnew := List.mem_append.mp haccess
    · exact h.within access hold
    · obtain ⟨i, hi, rfl⟩ := List.mem_map.mp hnew
      exact hloads i (Nat.le_of_lt_succ (List.mem_range.mp hi))

/-- `strlen` finds the text that the setters see. -/
theorem take_strlen (value : Text) : value.chars.take (strlen value.chars) = value.cstr := by
  have hpredicate : (fun byte : UInt8 => !decide (byte ≠ 0)) = fun byte => byte == 0 := by
    funext byte
    by_cases hzero : byte = 0 <;> simp [hzero]
  simp only [Text.cstr, List.takeWhile_eq_take_findIdx_not, hpredicate, strlen, List.idxOf]

/-- Up to the NUL every byte of a field may be loaded. -/
theorem load_within {field index : ℕ} {value : Text} (hfield : fields[field]? = some value)
    (hindex : index ≤ strlen value.chars) (bound : ℕ) :
    (Access.load field index).Within fields bound :=
  ⟨value, hfield, hindex, List.getElem?_idxOf value.terminated⟩

theorem accessText_holds (h : w.Holds fields text) {field : ℕ} {value : Text}
    (hfield : fields[field]? = some value) :
    (accessText w field value).Holds fields (appendColumn text value.cstr) := by
  have hscanned := h.separate.scan (fun i hi => load_within hfield hi _)
  have hcopied := hscanned.copy (fun i => [.load field i]) (value.chars.take (strlen value.chars))
    (by
      intro i hi access haccess
      obtain rfl := List.mem_singleton.mp haccess
      have hlength := List.length_take_le (strlen value.chars) value.chars
      exact load_within hfield (by omega) _)
  simpa only [accessText, appendColumn, take_strlen] using hcopied

/-- Every integer has at most 20 characters, so 32 are enough. -/
theorem toChars_eq (value : Int64) : toChars 32 value = some (decimalText value.toInt) :=
  if_pos ((decimalText_toInt_length value).trans (by norm_num))

theorem accessInt64_holds (h : w.Holds fields text) (value : Int64) :
    ∃ after, accessInt64 w value = .ok after ∧
      after.Holds fields (appendColumn text (decimalText value.toInt)) := by
  refine ⟨w.separate.copy (fun _ => []) (decimalText value.toInt), ?_, ?_⟩
  · simp only [accessInt64, toChars_eq]
  · exact h.separate.copy _ _ fun _ _ access haccess => absurd haccess List.not_mem_nil

/-- The text that a column adds to the line. -/
def Column.bytes : Column → Bytes
  | .chars _ value => value.cstr
  | .int64 value => decimalText value.toInt

/-- A text column is the field with its number. -/
def Column.OfFields (fields : List Text) : Column → Prop
  | .chars field value => fields[field]? = some value
  | .int64 _ => True

theorem accessColumn_holds (h : w.Holds fields text) {column : Column}
    (hcolumn : column.OfFields fields) :
    ∃ after, accessColumn w column = .ok after ∧
      after.Holds fields (appendColumn text column.bytes) := by
  cases column with
  | chars field value => exact ⟨_, rfl, accessText_holds h hcolumn⟩
  | int64 value => exact accessInt64_holds h value

theorem foldlM_accessColumn_holds (columns : List Column) (h : w.Holds fields text)
    (hcolumns : ∀ column ∈ columns, column.OfFields fields) :
    ∃ after, columns.foldlM accessColumn w = .ok after ∧
      after.Holds fields ((columns.map Column.bytes).foldl appendColumn text) := by
  induction columns generalizing w text with
  | nil => exact ⟨w, rfl, h⟩
  | cons column rest ih =>
    obtain ⟨middle, hcolumn, hmiddle⟩ :=
      accessColumn_holds h (hcolumns column List.mem_cons_self)
    obtain ⟨after, hrest, hafter⟩ :=
      ih hmiddle fun other hother => hcolumns other (List.mem_cons_of_mem _ hother)
    exact ⟨after, by simpa [hcolumn, bind, Except.bind] using hrest, hafter⟩

theorem accessColumns_holds (columns : List Column) (memory : Memory)
    (hcolumns : ∀ column ∈ columns, column.OfFields fields) :
    ∃ after, accessColumns columns memory = .ok after ∧
      after.Holds fields (joinColumns (columns.map Column.bytes) ++ [10]) := by
  have hstart : Writing.Holds ⟨memory, 0, []⟩ fields [] :=
    ⟨rfl, rfl, fun access haccess => absurd haccess List.not_mem_nil⟩
  obtain ⟨middle, hrun, hmiddle⟩ := foldlM_accessColumn_holds columns hstart hcolumns
  exact ⟨middle.put 10, by simp [accessColumns, hrun, bind, Except.bind, pure, Except.pure],
    hmiddle.put 10⟩

end Bounds

section Safety

variable {Event : Type} [Traits Event]

/-- Every access of the formatter is inside the arrays, it writes the line of the
checked model, and the framed message has its room in the output array. -/
structure BuffersSafe (event : Event) (fields : List Text)
    (accesses : Memory → Except Fault Writing) : Prop where
  formatting : ∀ memory, ∃ w, accesses memory = .ok w ∧
    (∀ access ∈ w.accesses, access.Within fields kLogCapacity) ∧
    ∀ line, ∃ after, Traits.format event line = .ok ⟨after, w.position⟩ ∧
      after.bytes.take w.position = read w.memory 0 w.position
  framed : 6 + payloadSize event ≤ kOutputCapacity
  processing : ∀ (runtime : Runtime) (mode : Mode) (scratch : Scratch Event),
    ∃ result, processEvent runtime event mode scratch (payloadSize event) = .ok result

theorem lineLength_le (event : Event) : lineLength event ≤ 1921 := by
  have hjoin := foldl_appendColumn_length_le (Traits.columns event) []
  have hsum := columns_sum_le event
  simp only [lineLength, joinColumns, List.length_nil] at *
  omega

/-- Both stores of the prefix and the message are inside the output array, and so is
the line, also where the library reports that it could not serialize. -/
theorem processEvent_defined (runtime : Runtime) (event : Event) (mode : Mode)
    (scratch : Scratch Event) :
    ∃ result, processEvent runtime event mode scratch (payloadSize event) = .ok result := by
  by_cases hproto : doesProto mode = true
  · obtain ⟨output, hrun, -⟩ := processEvent_serializes runtime event event scratch hproto
    by_cases hwritten : (runtime.serializeToArray (populatedFields event scratch)
        (toCInt (payloadSize event))).1 = true
    · obtain ⟨line, hpipe⟩ := processPipe_ok event mode
        { scratch with message := Traits.populate event scratch.message, output }
        (payloadSize event + 6)
      exact ⟨_, hrun.trans ((if_pos hwritten).trans hpipe)⟩
    · exact ⟨_, hrun.trans (if_neg hwritten)⟩
  · obtain ⟨line, hpipe⟩ := processPipe_ok event mode scratch 0
    exact ⟨_, (if_neg hproto).trans hpipe⟩

/-- It is enough that the columns are the event's, and its text columns its fields. -/
theorem buffersSafe_of_columns {event : Event} {fields : List Text} {columns : List Column}
    (hcolumns : columns.map Column.bytes = Traits.columns event)
    (hfields : ∀ column ∈ columns, column.OfFields fields) :
    BuffersSafe event fields (accessColumns columns) where
  formatting := by
    intro memory
    obtain ⟨w, hrun, hholds⟩ := accessColumns_holds columns memory hfields
    have hposition : w.position = lineLength event := by
      simpa [hcolumns, lineLength] using hholds.position
    have hbound : w.position ≤ kLogCapacity :=
      hposition.le.trans ((lineLength_le event).trans (by decide))
    refine ⟨w, hrun, fun access haccess => (hholds.within access haccess).mono hbound, ?_⟩
    intro line
    obtain ⟨after, hformat, -, htake⟩ := format_ok event line
    refine ⟨after, by simpa only [hposition] using hformat, ?_⟩
    have hread := hholds.read
    rw [← hholds.position, hcolumns] at hread
    rw [hread, hposition, htake]
  framed := by
    have hsize := payloadSize_le event
    simp only [kOutputCapacity]
    omega
  processing runtime mode scratch := processEvent_defined runtime event mode scratch

/-- Text columns that are numbered from the first field after `before` on. -/
theorem ofFields_ofFn {n : ℕ} (before : List Text) (values : Fin n → Text) (i : Fin n) :
    (Column.chars (before.length + i) (values i)).OfFields (before ++ List.ofFn values) := by
  have hindex : (before ++ List.ofFn values)[before.length + i]? = (List.ofFn values)[i.val]? := by
    rw [List.getElem?_append_right (Nat.le_add_right _ _), Nat.add_sub_cancel_left]
  exact hindex.trans (List.getElem?_ofFn.trans (dif_pos i.isLt))

theorem intEvent_safe (event : IntEvent) : BuffersSafe event [event.symbol] event.accesses := by
  apply buffersSafe_of_columns
  · simp [Column.bytes, Traits.columns, IntEvent.columns]
  · intro column hcolumn
    obtain rfl | hvalue := List.mem_cons.mp hcolumn
    · exact rfl
    · obtain ⟨value, -, rfl⟩ := List.mem_map.mp hvalue
      exact trivial

theorem decimalEvent_safe (event : DecimalEvent) :
    BuffersSafe event (event.symbol :: List.ofFn event.decimals) event.accesses := by
  apply buffersSafe_of_columns
  · simp only [List.map_cons, List.map_ofFn, Traits.columns, DecimalEvent.columns]
    rfl
  · intro column hcolumn
    obtain rfl | htext := List.mem_cons.mp hcolumn
    · exact rfl
    · obtain ⟨i, rfl⟩ := List.mem_ofFn.mp htext
      simpa only [List.length_singleton, Nat.add_comm, List.singleton_append] using
        ofFields_ofFn [event.symbol] event.decimals i

theorem wideEvent_safe (event : WideEvent) :
    BuffersSafe event (List.ofFn event.fields) event.accesses := by
  apply buffersSafe_of_columns
  · simp only [List.map_ofFn, Traits.columns, WideEvent.columns]
    rfl
  · intro column hcolumn
    obtain ⟨i, rfl⟩ := List.mem_ofFn.mp hcolumn
    simpa only [List.length_nil, Nat.zero_add, List.nil_append] using
      ofFields_ofFn [] event.fields i

/-- No event whose texts were filled by `copy_text` makes a formatter or `process_event`
leave its arrays, and no integer is too long for `to_chars`. -/
theorem fixed_buffers_never_overrun :
    (∀ symbol values,
      BuffersSafe (IntEvent.mk (copyText symbol) values) [copyText symbol]
        (IntEvent.mk (copyText symbol) values).accesses) ∧
    (∀ symbol (decimals : Fin 10 → Bytes),
      BuffersSafe (DecimalEvent.mk (copyText symbol) fun i => copyText (decimals i))
        (copyText symbol :: List.ofFn fun i => copyText (decimals i))
        (DecimalEvent.mk (copyText symbol) fun i => copyText (decimals i)).accesses) ∧
    (∀ fields : Fin 60 → Bytes,
      BuffersSafe (WideEvent.mk fun i => copyText (fields i))
        (List.ofFn fun i => copyText (fields i))
        (WideEvent.mk fun i => copyText (fields i)).accesses) ∧
    ∀ value, toChars 32 value = some (decimalText value.toInt) :=
  ⟨fun _ _ => intEvent_safe _, fun _ _ => decimalEvent_safe _, fun _ => wideEvent_safe _,
    toChars_eq⟩

end Safety

end ProtobufKafkaBench.MarketEvents

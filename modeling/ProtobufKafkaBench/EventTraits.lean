import ProtobufKafkaBench.MarketEvents
import Mathlib.Algebra.Order.BigOperators.Group.List
import Mathlib.Algebra.Group.Action.Defs

/-!
Populating a reused message from an event and formatting the event as one
pipe-separated log line. The separator is decided from the running output
position. `Traits` collects what the three specialisations provide, with the
facts that later proofs use: populating leaves nothing of the old message
behind, and formatting appends the event's columns.
-/
namespace ProtobufKafkaBench.MarketEvents

open ByteBuffers WireFormat

section Line

inductive Fault
  | overrun
  | integerFormattingFailed

/-- The output array of `format` together with `position`. -/
structure LineState where
  line : ByteBuffer kLogCapacity
  position : ℕ

def LineState.put (state : LineState) (data : Bytes) : Except Fault LineState :=
  match state.line.write state.position data with
  | some line => .ok ⟨line, state.position + data.length⟩
  | none => .error .overrun

/-- `if (position != 0) output[position++] = '|'`. -/
def LineState.separate (state : LineState) : Except Fault LineState :=
  if state.position ≠ 0 then state.put [124] else .ok state

def appendBytes (state : LineState) (value : Bytes) : Except Fault LineState := do
  let state ← state.separate
  state.put value

/-- The overload of `append` for a C string. -/
def appendText (state : LineState) (value : Text) : Except Fault LineState :=
  appendBytes state value.cstr

/-- `std::to_chars` into an array of `size` characters. -/
def toChars (size : ℕ) (value : Int64) : Option Bytes :=
  if (decimalText value.toInt).length ≤ size then some (decimalText value.toInt) else none

/-- The overload of `append` for an integer. -/
def appendInt64 (state : LineState) (value : Int64) : Except Fault LineState := do
  let state ← state.separate
  match toChars 32 value with
  | some text => state.put text
  | none => .error .integerFormattingFailed

theorem decimalText_toInt_length (value : Int64) : (decimalText value.toInt).length ≤ 20 := by
  refine decimalText_length_le (by norm_num) ?_
  have hlower := Int64.le_toInt value
  have hupper := Int64.toInt_lt value
  omega

theorem appendInt64_eq (state : LineState) (value : Int64) :
    appendInt64 state value = appendBytes state (decimalText value.toInt) := by
  have hfits : (decimalText value.toInt).length ≤ 32 :=
    (decimalText_toInt_length value).trans (by norm_num)
  simp only [appendInt64, appendBytes, toChars, if_pos hfits]

/-- The text of a line after one more column. -/
def appendColumn (text column : Bytes) : Bytes :=
  (if text = [] then [] else text ++ [124]) ++ column

def joinColumns (columns : List Bytes) : Bytes := columns.foldl appendColumn []

/-- What every `format` does: append its columns in order, then a newline. -/
def formatColumns (columns : List Bytes) (line : ByteBuffer kLogCapacity) :
    Except Fault LineState := do
  let state ← columns.foldlM appendBytes ⟨line, 0⟩
  state.put [10]

def LineState.Holds (state : LineState) (text : Bytes) : Prop :=
  state.line.Filled state.position text

theorem LineState.Holds.put {state : LineState} {text : Bytes} (h : state.Holds text)
    (data : Bytes) (hfits : text.length + data.length ≤ kLogCapacity) :
    ∃ after, state.put data = .ok after ∧ after.Holds (text ++ data) := by
  have hposition : state.position = text.length := h.1
  obtain ⟨line, hwrite, hfilled⟩ := h.write data (by rw [hposition]; exact hfits)
  exact ⟨⟨line, state.position + data.length⟩, by simp [LineState.put, hwrite], hfilled⟩

theorem appendColumn_length_le (text column : Bytes) :
    (appendColumn text column).length ≤ text.length + (column.length + 1) := by
  unfold appendColumn
  split <;> simp only [List.length_append, List.length_nil, List.length_singleton] <;> omega

theorem appendBytes_holds {state : LineState} {text : Bytes} (h : state.Holds text)
    (column : Bytes) (hfits : text.length + (column.length + 1) ≤ kLogCapacity) :
    ∃ after, appendBytes state column = .ok after ∧ after.Holds (appendColumn text column) := by
  have hposition : state.position = text.length := h.1
  by_cases hempty : text = []
  · have hzero : state.position = 0 := by rw [hposition, hempty, List.length_nil]
    obtain ⟨after, hput, hafter⟩ := h.put column (by omega)
    refine ⟨after, ?_, by simpa [appendColumn, hempty] using hafter⟩
    simpa [appendBytes, LineState.separate, hzero, bind, Except.bind] using hput
  · have hne : state.position ≠ 0 := by
      rw [hposition]
      exact mt List.length_eq_zero_iff.mp hempty
    obtain ⟨middle, hbar, hmiddle⟩ := h.put [124] (by simp only [List.length_singleton]; omega)
    obtain ⟨after, hput, hafter⟩ := hmiddle.put column
      (by simp only [List.length_append, List.length_singleton]; omega)
    refine ⟨after, ?_, by simpa [appendColumn, hempty] using hafter⟩
    simpa [appendBytes, LineState.separate, hne, hbar, bind, Except.bind] using hput

theorem foldlM_appendBytes_holds (columns : List Bytes) {state : LineState} {text : Bytes}
    (h : state.Holds text)
    (hfits : text.length + (columns.map fun column => column.length + 1).sum ≤ kLogCapacity) :
    ∃ after, columns.foldlM appendBytes state = .ok after ∧
      after.Holds (columns.foldl appendColumn text) := by
  induction columns generalizing state text with
  | nil => exact ⟨state, rfl, h⟩
  | cons column rest ih =>
    simp only [List.map_cons, List.sum_cons] at hfits
    obtain ⟨middle, hcolumn, hmiddle⟩ := appendBytes_holds h column (by omega)
    have hlength := appendColumn_length_le text column
    obtain ⟨after, hrest, hafter⟩ := ih hmiddle (by omega)
    exact ⟨after, by simpa [hcolumn, bind, Except.bind] using hrest, hafter⟩

theorem foldl_appendColumn_length_le (columns : List Bytes) (text : Bytes) :
    (columns.foldl appendColumn text).length ≤
      text.length + (columns.map fun column => column.length + 1).sum := by
  induction columns generalizing text with
  | nil => simp
  | cons column rest ih =>
    have hrest := ih (appendColumn text column)
    have hcolumn := appendColumn_length_le text column
    simp only [List.foldl_cons, List.map_cons, List.sum_cons]
    omega

/-- Columns that fit are written in full, whatever the buffer held before. -/
theorem formatColumns_eq (columns : List Bytes) (line : ByteBuffer kLogCapacity)
    (hfits : (columns.map fun column => column.length + 1).sum < kLogCapacity) :
    ∃ after, formatColumns columns line =
        .ok ⟨after, (joinColumns columns).length + 1⟩ ∧
      after.Filled ((joinColumns columns).length + 1) (joinColumns columns ++ [10]) := by
  have hstart : LineState.Holds ⟨line, 0⟩ [] := ByteBuffer.filled_zero line
  obtain ⟨middle, hcolumns, hmiddle⟩ :=
    foldlM_appendBytes_holds columns hstart (by simpa using hfits.le)
  have hlength := foldl_appendColumn_length_le columns []
  simp only [List.length_nil, Nat.zero_add] at hlength
  obtain ⟨after, hput, hafter⟩ := hmiddle.put [10]
    (by simp only [List.length_singleton]; omega)
  have hposition : after.position = (joinColumns columns).length + 1 := by
    simpa [joinColumns] using hafter.1
  refine ⟨after.line, ?_, ?_⟩
  · have hall : formatColumns columns line = .ok after := by
      simp only [formatColumns, hcolumns, bind, Except.bind]
      exact hput
    rw [hall, ← hposition]
  · rw [← hposition]
    exact hafter

end Line

section Traits

/-- What `Traits<Event>` gives for an event type. `columns` are the texts of the
event's fields in declaration order. -/
class Traits (Event : Type) where
  Message : Type
  name : String
  make : Event
  default : Message
  fields : Message → List Field
  populate : Event → Message → Message
  format : Event → ByteBuffer kLogCapacity → Except Fault LineState
  columns : Event → List Bytes
  populate_overwrites : ∀ event old old', populate event old = populate event old'
  fields_length_le : ∀ message, (fields message).length ≤ 60
  fields_small : ∀ event old, ∀ field ∈ fields (populate event old), SmallField field
  format_eq : ∀ event line, format event line = formatColumns (columns event) line
  columns_length_le : ∀ event, (columns event).length ≤ 60
  column_length_le : ∀ event, ∀ column ∈ columns event, column.length ≤ 31

end Traits

section IntEvent

def IntEvent.populate (event : IntEvent) (message : OneStringTenInt64) : OneStringTenInt64 :=
  { message with
    symbol := event.symbol.cstr
    value01 := event.values 0
    value02 := event.values 1
    value03 := event.values 2
    value04 := event.values 3
    value05 := event.values 4
    value06 := event.values 5
    value07 := event.values 6
    value08 := event.values 7
    value09 := event.values 8
    value10 := event.values 9 }

def IntEvent.format (event : IntEvent) (line : ByteBuffer kLogCapacity) :
    Except Fault LineState := do
  let state ← appendText ⟨line, 0⟩ event.symbol
  let state ← (List.ofFn event.values).foldlM appendInt64 state
  state.put [10]

def IntEvent.columns (event : IntEvent) : List Bytes :=
  event.symbol.cstr :: (List.ofFn event.values).map fun value => decimalText value.toInt

theorem IntEvent.format_eq (event : IntEvent) (line : ByteBuffer kLogCapacity) :
    event.format line = formatColumns event.columns line := by
  simp only [IntEvent.format, formatColumns, IntEvent.columns, List.foldlM_cons,
    List.foldlM_map, appendText, bind_assoc]
  congr 1
  funext state
  congr 2
  funext state value
  exact appendInt64_eq state value

theorem text_length_le (text : Text) : text.cstr.length ≤ 31 :=
  Nat.le_of_lt_succ text.cstr_length_lt

instance : Traits IntEvent where
  Message := OneStringTenInt64
  name := "one_string_ten_int64"
  make := makeIntEvent
  default := OneStringTenInt64.default
  fields := OneStringTenInt64.fields
  populate := IntEvent.populate
  format := IntEvent.format
  columns := IntEvent.columns
  populate_overwrites _ _ _ := rfl
  fields_length_le _ := by simp [OneStringTenInt64.fields]
  fields_small event old := by
    have hsymbol := event.symbol.cstr_length_lt
    simpa [OneStringTenInt64.fields, IntEvent.populate, SmallField, kTextCapacity] using hsymbol
  format_eq := IntEvent.format_eq
  columns_length_le event := by simp [IntEvent.columns]
  column_length_le event column hmem := by
    rcases List.mem_cons.mp hmem with rfl | hmem
    · exact text_length_le event.symbol
    · obtain ⟨value, -, rfl⟩ := List.mem_map.mp hmem
      exact (decimalText_toInt_length value).trans (by norm_num)

end IntEvent

section DecimalEvent

def DecimalEvent.populate (event : DecimalEvent) (message : OneStringTenDecimal) :
    OneStringTenDecimal :=
  { message with
    symbol := event.symbol.cstr
    decimal01 := (event.decimals 0).cstr
    decimal02 := (event.decimals 1).cstr
    decimal03 := (event.decimals 2).cstr
    decimal04 := (event.decimals 3).cstr
    decimal05 := (event.decimals 4).cstr
    decimal06 := (event.decimals 5).cstr
    decimal07 := (event.decimals 6).cstr
    decimal08 := (event.decimals 7).cstr
    decimal09 := (event.decimals 8).cstr
    decimal10 := (event.decimals 9).cstr }

def DecimalEvent.format (event : DecimalEvent) (line : ByteBuffer kLogCapacity) :
    Except Fault LineState := do
  let state ← appendText ⟨line, 0⟩ event.symbol
  let state ← (List.ofFn event.decimals).foldlM appendText state
  state.put [10]

def DecimalEvent.columns (event : DecimalEvent) : List Bytes :=
  event.symbol.cstr :: (List.ofFn event.decimals).map Text.cstr

theorem DecimalEvent.format_eq (event : DecimalEvent) (line : ByteBuffer kLogCapacity) :
    event.format line = formatColumns event.columns line := by
  simp only [DecimalEvent.format, formatColumns, DecimalEvent.columns, List.foldlM_cons,
    List.foldlM_map, appendText, bind_assoc]
  rfl

instance : Traits DecimalEvent where
  Message := OneStringTenDecimal
  name := "one_string_ten_decimal_strings"
  make := makeDecimalEvent
  default := OneStringTenDecimal.default
  fields := OneStringTenDecimal.fields
  populate := DecimalEvent.populate
  format := DecimalEvent.format
  columns := DecimalEvent.columns
  populate_overwrites _ _ _ := rfl
  fields_length_le _ := by simp [OneStringTenDecimal.fields]
  fields_small event old := by
    have hsymbol := event.symbol.cstr_length_lt
    have hdecimals := fun i => (event.decimals i).cstr_length_lt
    simp only [kTextCapacity] at hsymbol hdecimals
    simp [OneStringTenDecimal.fields, DecimalEvent.populate, SmallField, hsymbol, hdecimals]
  format_eq := DecimalEvent.format_eq
  columns_length_le event := by simp [DecimalEvent.columns]
  column_length_le event column hmem := by
    rcases List.mem_cons.mp hmem with rfl | hmem
    · exact text_length_le event.symbol
    · obtain ⟨value, -, rfl⟩ := List.mem_map.mp hmem
      exact text_length_le value

end DecimalEvent

section WideEvent

def WideEvent.populate (event : WideEvent) (message : TenStringFiftyDecimal) :
    TenStringFiftyDecimal :=
  { message with
    symbol01 := (event.fields 0).cstr
    symbol02 := (event.fields 1).cstr
    symbol03 := (event.fields 2).cstr
    symbol04 := (event.fields 3).cstr
    symbol05 := (event.fields 4).cstr
    symbol06 := (event.fields 5).cstr
    symbol07 := (event.fields 6).cstr
    symbol08 := (event.fields 7).cstr
    symbol09 := (event.fields 8).cstr
    symbol10 := (event.fields 9).cstr
    decimal01 := (event.fields 10).cstr
    decimal02 := (event.fields 11).cstr
    decimal03 := (event.fields 12).cstr
    decimal04 := (event.fields 13).cstr
    decimal05 := (event.fields 14).cstr
    decimal06 := (event.fields 15).cstr
    decimal07 := (event.fields 16).cstr
    decimal08 := (event.fields 17).cstr
    decimal09 := (event.fields 18).cstr
    decimal10 := (event.fields 19).cstr
    decimal11 := (event.fields 20).cstr
    decimal12 := (event.fields 21).cstr
    decimal13 := (event.fields 22).cstr
    decimal14 := (event.fields 23).cstr
    decimal15 := (event.fields 24).cstr
    decimal16 := (event.fields 25).cstr
    decimal17 := (event.fields 26).cstr
    decimal18 := (event.fields 27).cstr
    decimal19 := (event.fields 28).cstr
    decimal20 := (event.fields 29).cstr
    decimal21 := (event.fields 30).cstr
    decimal22 := (event.fields 31).cstr
    decimal23 := (event.fields 32).cstr
    decimal24 := (event.fields 33).cstr
    decimal25 := (event.fields 34).cstr
    decimal26 := (event.fields 35).cstr
    decimal27 := (event.fields 36).cstr
    decimal28 := (event.fields 37).cstr
    decimal29 := (event.fields 38).cstr
    decimal30 := (event.fields 39).cstr
    decimal31 := (event.fields 40).cstr
    decimal32 := (event.fields 41).cstr
    decimal33 := (event.fields 42).cstr
    decimal34 := (event.fields 43).cstr
    decimal35 := (event.fields 44).cstr
    decimal36 := (event.fields 45).cstr
    decimal37 := (event.fields 46).cstr
    decimal38 := (event.fields 47).cstr
    decimal39 := (event.fields 48).cstr
    decimal40 := (event.fields 49).cstr
    decimal41 := (event.fields 50).cstr
    decimal42 := (event.fields 51).cstr
    decimal43 := (event.fields 52).cstr
    decimal44 := (event.fields 53).cstr
    decimal45 := (event.fields 54).cstr
    decimal46 := (event.fields 55).cstr
    decimal47 := (event.fields 56).cstr
    decimal48 := (event.fields 57).cstr
    decimal49 := (event.fields 58).cstr
    decimal50 := (event.fields 59).cstr }

/-- Here the separator and the copy are written out in the loop. -/
def WideEvent.format (event : WideEvent) (line : ByteBuffer kLogCapacity) :
    Except Fault LineState := do
  let state ← (List.ofFn event.fields).foldlM
    (fun (state : LineState) (value : Text) => do
      let state ← state.separate
      state.put value.cstr) ⟨line, 0⟩
  state.put [10]

def WideEvent.columns (event : WideEvent) : List Bytes := (List.ofFn event.fields).map Text.cstr

theorem WideEvent.format_eq (event : WideEvent) (line : ByteBuffer kLogCapacity) :
    event.format line = formatColumns event.columns line := by
  simp only [WideEvent.format, formatColumns, WideEvent.columns, List.foldlM_map]
  rfl

instance : Traits WideEvent where
  Message := TenStringFiftyDecimal
  name := "ten_strings_fifty_decimal_strings"
  make := makeWideEvent
  default := TenStringFiftyDecimal.default
  fields := TenStringFiftyDecimal.fields
  populate := WideEvent.populate
  format := WideEvent.format
  columns := WideEvent.columns
  populate_overwrites _ _ _ := rfl
  fields_length_le _ := by simp [TenStringFiftyDecimal.fields]
  fields_small event old := by
    have hfields := fun i => (event.fields i).cstr_length_lt
    simp only [kTextCapacity] at hfields
    simp [TenStringFiftyDecimal.fields, WideEvent.populate, SmallField, hfields]
  format_eq := WideEvent.format_eq
  columns_length_le event := by simp [WideEvent.columns]
  column_length_le event column hmem := by
    obtain ⟨value, -, rfl⟩ := List.mem_map.mp hmem
    exact text_length_le value

end WideEvent

section Bounds

variable {Event : Type} [Traits Event]

/-- The serialized size of a populated message, in bytes, is far below the buffer's. -/
theorem byteSizeLong_populate_le (event : Event) (old : Traits.Message Event) :
    byteSizeLong (Traits.fields (Traits.populate event old)) ≤ 2040 := by
  have hsize := byteSizeLong_le (Traits.fields_small event old)
  have hlength := Traits.fields_length_le (Traits.populate event old)
  omega

/-- One column and its separator take at most 32 bytes, and there are at most 60. -/
theorem columns_sum_le (event : Event) :
    ((Traits.columns event).map fun column => column.length + 1).sum ≤ 1920 := by
  have hsum := List.sum_le_card_nsmul
    ((Traits.columns event).map fun column => column.length + 1) 32 (by
      intro n hn
      obtain ⟨column, hmem, rfl⟩ := List.mem_map.mp hn
      exact Nat.succ_le_succ (Traits.column_length_le event column hmem))
  have hlength := Traits.columns_length_le event
  rw [List.length_map, smul_eq_mul] at hsum
  omega

/-- The number of bytes `format` returns. -/
def lineLength (event : Event) : ℕ := (joinColumns (Traits.columns event)).length + 1

/-- Formatting never fails, and its result depends on the event alone. -/
theorem format_ok (event : Event) (line : ByteBuffer kLogCapacity) :
    ∃ after, Traits.format event line = .ok ⟨after, lineLength event⟩ ∧
      after.Filled (lineLength event) (joinColumns (Traits.columns event) ++ [10]) := by
  rw [Traits.format_eq]
  refine formatColumns_eq _ line ?_
  have hsum := columns_sum_le event
  simp only [kLogCapacity]
  omega

end Bounds

end ProtobufKafkaBench.MarketEvents

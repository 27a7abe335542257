import ProtobufKafkaBench.EventTraits
import Mathlib.Data.List.Infix

/-!
Reading a pipe log line back. A line ends in its only newline, and what stands
before it is split at `|`. Since the separator is decided from the running
position, empty columns at the start of a line leave no trace: splitting gives
the columns after them. The Kafka payload of the same event holds the same
columns, whatever the reused message held before.
-/
namespace ProtobufKafkaBench.MarketEvents

open ByteBuffers WireFormat

section Columns

/-- What splitting a line gives for its columns: those after the empty ones at
the start, or one empty column. -/
def survivingColumns (columns : List Bytes) : List Bytes :=
  if columns.dropWhile (· = []) = [] then [[]] else columns.dropWhile (· = [])

theorem foldl_appendColumn_of_ne_nil (columns : List Bytes) {text : Bytes} (htext : text ≠ []) :
    columns.foldl appendColumn text = [124].intercalate (text :: columns) := by
  induction columns generalizing text with
  | nil => simp
  | cons column rest ih =>
    have hstep : appendColumn text column = text ++ [124] ++ column := by
      simp only [appendColumn, if_neg htext]
    have hne : text ++ [124] ++ column ≠ [] := by simp
    rw [List.foldl_cons, hstep, ih hne, List.intercalate_cons_cons]
    cases rest with
    | nil => simp
    | cons next rest => simp [List.intercalate_cons_cons]

/-- A line joins the columns after the empty ones at the start. -/
theorem joinColumns_eq (columns : List Bytes) :
    joinColumns columns = [124].intercalate (columns.dropWhile (· = [])) := by
  induction columns with
  | nil => rfl
  | cons column rest ih =>
    by_cases hempty : column = []
    · have hstep : joinColumns (column :: rest) = joinColumns rest := by
        simp [joinColumns, appendColumn, hempty]
      rw [hstep, ih, List.dropWhile_cons, if_pos (by simpa using hempty)]
    · have hstep : joinColumns (column :: rest) = rest.foldl appendColumn column := by
        simp [joinColumns, appendColumn]
      rw [hstep, foldl_appendColumn_of_ne_nil rest hempty, List.dropWhile_cons,
        if_neg (by simpa using hempty)]

theorem splitOn_joinColumns {columns : List Bytes} (hclean : ∀ column ∈ columns, 124 ∉ column) :
    (joinColumns columns).splitOn 124 = survivingColumns columns := by
  rw [joinColumns_eq, survivingColumns]
  split
  · next hnil => rw [hnil]; rfl
  · next hkept =>
    apply List.splitOn_intercalate
    · intro column hmem
      exact hclean column ((List.dropWhile_suffix _).subset hmem)
    · exact hkept

/-- Two columns or more come back exactly when the first is not empty. -/
theorem survivingColumns_eq_iff {first : Bytes} {rest : List Bytes} (hrest : rest ≠ []) :
    survivingColumns (first :: rest) = first :: rest ↔ first ≠ [] := by
  have hlength : (rest.dropWhile (· = [])).length ≤ rest.length :=
    (List.dropWhile_suffix _).length_le
  have hpositive : 0 < rest.length := List.length_pos_iff.mpr hrest
  by_cases hempty : first = []
  · have hdrop : (first :: rest).dropWhile (· = []) = rest.dropWhile (· = []) := by
      rw [List.dropWhile_cons, if_pos (by simpa using hempty)]
    refine ⟨fun heq => ?_, fun hne => absurd hempty hne⟩
    have hcount := congrArg List.length heq
    unfold survivingColumns at hcount
    rw [hdrop] at hcount
    split at hcount
    · simp only [List.length_cons, List.length_nil] at hcount
      omega
    · simp only [List.length_cons] at hcount
      omega
  · have hdrop : (first :: rest).dropWhile (· = []) = first :: rest := by
      rw [List.dropWhile_cons, if_neg (by simpa using hempty)]
    simp [survivingColumns, hdrop, hempty]

theorem mem_appendColumn {text column : Bytes} {byte : UInt8}
    (h : byte ∈ appendColumn text column) : byte ∈ text ∨ byte = 124 ∨ byte ∈ column := by
  unfold appendColumn at h
  by_cases hempty : text = []
  · simp only [hempty, ↓reduceIte, List.nil_append] at h
    exact Or.inr (Or.inr h)
  · simp only [hempty, ↓reduceIte, List.append_assoc, List.singleton_append] at h
    rcases List.mem_append.mp h with htext | hrest
    · exact Or.inl htext
    · exact Or.inr (List.mem_cons.mp hrest)

theorem mem_joinColumns {columns : List Bytes} {byte : UInt8} (h : byte ∈ joinColumns columns) :
    byte = 124 ∨ ∃ column ∈ columns, byte ∈ column := by
  suffices hall : ∀ text, byte ∈ columns.foldl appendColumn text →
      byte ∈ text ∨ byte = 124 ∨ ∃ column ∈ columns, byte ∈ column by
    exact (hall [] h).resolve_left (by simp)
  clear h
  induction columns with
  | nil => exact fun text hmem => Or.inl hmem
  | cons column rest ih =>
    intro text hmem
    rcases ih (appendColumn text column) hmem with htext | hbar | ⟨other, hother, hin⟩
    · rcases mem_appendColumn htext with hin | hbar | hin
      · exact Or.inl hin
      · exact Or.inr (Or.inl hbar)
      · exact Or.inr (Or.inr ⟨column, List.mem_cons_self, hin⟩)
    · exact Or.inr (Or.inl hbar)
    · exact Or.inr (Or.inr ⟨other, List.mem_cons_of_mem _ hother, hin⟩)

end Columns

section Clean

/-- A text that holds neither the separator nor a newline. -/
def Clean (text : Bytes) : Prop := 124 ∉ text ∧ 10 ∉ text

theorem clean_decimalText (z : ℤ) : Clean (decimalText z) := by
  constructor
  all_goals
    intro hmem
    have hrange := decimalText_range hmem
    simp at hrange

theorem newline_not_mem_joinColumns {columns : List Bytes} (h : ∀ column ∈ columns, Clean column) :
    10 ∉ joinColumns columns := by
  intro hmem
  rcases mem_joinColumns hmem with hbar | ⟨column, hcolumn, hin⟩
  · simp at hbar
  · exact (h column hcolumn).2 hin

end Clean

section ReadBack

/-- The call wrote a line that ends in its only newline, and what stands before
it splits at `|` into `columns`. -/
def ReadsBack (columns : List Bytes) (result : Except Fault LineState) : Prop :=
  ∃ state body, result = .ok state ∧ state.line.bytes.take state.position = body ++ [10] ∧
    10 ∉ body ∧ body.splitOn 124 = columns

variable {Event : Type} [Traits Event]

/-- A formatted line reads back as the columns that survive the join, and as no others. -/
theorem format_readsBack_iff {event : Event} (line : ByteBuffer kLogCapacity)
    (hclean : ∀ column ∈ Traits.columns event, Clean column) (columns : List Bytes) :
    ReadsBack columns (Traits.format event line) ↔
      survivingColumns (Traits.columns event) = columns := by
  obtain ⟨after, hformat, hfilled⟩ := format_ok event line
  have hnewline := newline_not_mem_joinColumns hclean
  have hsplit := splitOn_joinColumns fun column hmem => (hclean column hmem).1
  constructor
  · intro h
    obtain ⟨state, body, hstate, hline, -, hbody⟩ := h
    obtain rfl := Except.ok.inj (hformat.symm.trans hstate)
    have heq : joinColumns (Traits.columns event) = body := by
      have hboth := hfilled.2.symm.trans hline
      exact (List.append_left_inj [10]).mp hboth
    rw [← hsplit, heq, hbody]
  · intro hcolumns
    exact ⟨_, _, hformat, hfilled.2, hnewline, hsplit.trans hcolumns⟩

/-- An event's own columns come back exactly when its first text is not empty. -/
theorem format_readsBack_columns_iff (event : Event) (line : ByteBuffer kLogCapacity)
    {first : Bytes} {rest : List Bytes} (hcolumns : Traits.columns event = first :: rest)
    (hrest : rest ≠ []) (hclean : ∀ column ∈ first :: rest, Clean column) :
    ReadsBack (first :: rest) (Traits.format event line) ↔ first ≠ [] := by
  rw [format_readsBack_iff line (by rwa [hcolumns]), hcolumns]
  exact survivingColumns_eq_iff hrest

end ReadBack

section Events

theorem IntEvent.columns_clean {event : IntEvent} (hsymbol : Clean event.symbol.cstr) :
    ∀ column ∈ event.columns, Clean column := by
  intro column hmem
  rcases List.mem_cons.mp hmem with rfl | hvalue
  · exact hsymbol
  · obtain ⟨value, -, rfl⟩ := List.mem_map.mp hvalue
    exact clean_decimalText value.toInt

theorem DecimalEvent.columns_clean {event : DecimalEvent} (hsymbol : Clean event.symbol.cstr)
    (hdecimals : ∀ i, Clean (event.decimals i).cstr) :
    ∀ column ∈ event.columns, Clean column := by
  intro column hmem
  rcases List.mem_cons.mp hmem with rfl | hvalue
  · exact hsymbol
  · obtain ⟨value, htext, rfl⟩ := List.mem_map.mp hvalue
    obtain ⟨i, rfl⟩ := (List.mem_ofFn' _ _).mp htext
    exact hdecimals i

theorem WideEvent.columns_clean {event : WideEvent} (hfields : ∀ i, Clean (event.fields i).cstr) :
    ∀ column ∈ event.columns, Clean column := by
  intro column hmem
  obtain ⟨value, htext, rfl⟩ := List.mem_map.mp hmem
  obtain ⟨i, rfl⟩ := (List.mem_ofFn' _ _).mp htext
  exact hfields i

variable (line : ByteBuffer kLogCapacity)

theorem IntEvent.format_readsBack {event : IntEvent} (hsymbol : Clean event.symbol.cstr) :
    ReadsBack event.columns (event.format line) ↔ event.symbol.cstr ≠ [] := by
  apply format_readsBack_columns_iff event line rfl
  · exact List.ne_nil_of_length_pos (by simp)
  · exact IntEvent.columns_clean hsymbol

theorem DecimalEvent.format_readsBack {event : DecimalEvent} (hsymbol : Clean event.symbol.cstr)
    (hdecimals : ∀ i, Clean (event.decimals i).cstr) :
    ReadsBack event.columns (event.format line) ↔ event.symbol.cstr ≠ [] := by
  apply format_readsBack_columns_iff event line rfl
  · exact List.ne_nil_of_length_pos (by simp)
  · exact DecimalEvent.columns_clean hsymbol hdecimals

theorem WideEvent.format_readsBack {event : WideEvent}
    (hfields : ∀ i, Clean (event.fields i).cstr) :
    ReadsBack event.columns (event.format line) ↔ (event.fields 0).cstr ≠ [] := by
  have hcolumns : event.columns = (event.fields 0).cstr ::
      (List.ofFn fun i : Fin 59 => event.fields i.succ).map Text.cstr := by
    rw [WideEvent.columns, List.ofFn_succ, List.map_cons]
  rw [hcolumns]
  apply format_readsBack_columns_iff event line hcolumns
  · exact List.ne_nil_of_length_pos (by simp)
  · rw [← hcolumns]
    exact WideEvent.columns_clean hfields

/-- A line gives back all the columns of its event exactly when the event's
first text is not empty. -/
theorem format_readsBack_iff_first_text :
    (∀ event : IntEvent, Clean event.symbol.cstr →
      event.columns.length = 11 ∧
      (ReadsBack event.columns (event.format line) ↔ event.symbol.cstr ≠ [])) ∧
    (∀ event : DecimalEvent, Clean event.symbol.cstr → (∀ i, Clean (event.decimals i).cstr) →
      event.columns.length = 11 ∧
      (ReadsBack event.columns (event.format line) ↔ event.symbol.cstr ≠ [])) ∧
    (∀ event : WideEvent, (∀ i, Clean (event.fields i).cstr) →
      event.columns.length = 60 ∧
      (ReadsBack event.columns (event.format line) ↔ (event.fields 0).cstr ≠ [])) := by
  refine ⟨fun event hsymbol => ⟨?_, event.format_readsBack line hsymbol⟩,
    fun event hsymbol hdecimals => ⟨?_, event.format_readsBack line hsymbol hdecimals⟩,
    fun event hfields => ⟨?_, event.format_readsBack line hfields⟩⟩
  · simp [IntEvent.columns]
  · simp [DecimalEvent.columns]
  · simp [WideEvent.columns]

theorem clean_btcUsd : Clean (copyText (ascii "BTC-USD")).cstr := by
  rw [cstr_copyText (by decide) (by decide)]
  constructor <;> decide

theorem makeIntEvent_readsBack :
    ReadsBack makeIntEvent.columns (makeIntEvent.format (ByteBuffer.zeros kLogCapacity)) := by
  have hne : makeIntEvent.symbol.cstr ≠ [] := by decide
  exact ((format_readsBack_iff_first_text _).1 makeIntEvent clean_btcUsd).2.mpr hne

def blankIntEvent : IntEvent := { makeIntEvent with symbol := copyText [] }

/-- With an empty symbol the first separator is missing: ten columns instead of eleven. -/
theorem blankIntEvent_loses_column :
    Clean blankIntEvent.symbol.cstr ∧
    ¬ ReadsBack blankIntEvent.columns
      (blankIntEvent.format (ByteBuffer.zeros kLogCapacity)) := by
  have hempty : blankIntEvent.symbol.cstr = [] := by decide
  have hclean : Clean blankIntEvent.symbol.cstr := by
    rw [hempty]
    exact ⟨List.not_mem_nil, List.not_mem_nil⟩
  exact ⟨hclean, fun hreads => (blankIntEvent.format_readsBack _ hclean).mp hreads hempty⟩

end Events

section Payload

/-- A value of a message as a column holds it. -/
def columnText : FieldValue → Bytes
  | .text bytes => bytes
  | .int64 value => decimalText value.toInt

/-- The values of a message, in the order of its fields, as columns. -/
def messageColumns (message : List Field) : List Bytes :=
  message.map fun field => columnText field.2

theorem IntEvent.messageColumns_populate (event : IntEvent) (old : OneStringTenInt64) :
    messageColumns (event.populate old).fields = event.columns := by
  simp [messageColumns, OneStringTenInt64.fields, IntEvent.populate, IntEvent.columns,
    columnText, List.ofFn_succ]

theorem DecimalEvent.messageColumns_populate (event : DecimalEvent) (old : OneStringTenDecimal) :
    messageColumns (event.populate old).fields = event.columns := by
  simp [messageColumns, OneStringTenDecimal.fields, DecimalEvent.populate, DecimalEvent.columns,
    columnText, List.ofFn_succ]

theorem WideEvent.messageColumns_populate (event : WideEvent) (old : TenStringFiftyDecimal) :
    messageColumns (event.populate old).fields = event.columns := by
  simp [messageColumns, TenStringFiftyDecimal.fields, WideEvent.populate, WideEvent.columns,
    columnText, List.ofFn_succ]

theorem OneStringTenInt64.numbers (message : OneStringTenInt64) :
    message.fields.map Prod.fst = List.range' 1 11 := rfl

theorem OneStringTenDecimal.numbers (message : OneStringTenDecimal) :
    message.fields.map Prod.fst = List.range' 1 11 := rfl

theorem TenStringFiftyDecimal.numbers (message : TenStringFiftyDecimal) :
    message.fields.map Prod.fst = List.range' 1 60 := rfl

/-- The line of an event splits into the values of the message populated from
it, read in increasing field number, whatever the reused message held. -/
theorem format_readsBack_populate (line : ByteBuffer kLogCapacity) :
    (∀ (event : IntEvent) (old : OneStringTenInt64),
      event.symbol.cstr ≠ [] → Clean event.symbol.cstr →
      ((event.populate old).fields.map Prod.fst).Pairwise (· < ·) ∧
      ReadsBack (messageColumns (event.populate old).fields) (event.format line)) ∧
    (∀ (event : DecimalEvent) (old : OneStringTenDecimal),
      event.symbol.cstr ≠ [] → Clean event.symbol.cstr →
      (∀ i, (event.decimals i).cstr ≠ [] ∧ Clean (event.decimals i).cstr) →
      ((event.populate old).fields.map Prod.fst).Pairwise (· < ·) ∧
      ReadsBack (messageColumns (event.populate old).fields) (event.format line)) ∧
    (∀ (event : WideEvent) (old : TenStringFiftyDecimal),
      (∀ i, (event.fields i).cstr ≠ [] ∧ Clean (event.fields i).cstr) →
      ((event.populate old).fields.map Prod.fst).Pairwise (· < ·) ∧
      ReadsBack (messageColumns (event.populate old).fields) (event.format line)) := by
  refine ⟨?_, ?_, ?_⟩
  · intro event old hne hclean
    rw [event.messageColumns_populate old, OneStringTenInt64.numbers]
    exact ⟨List.pairwise_lt_range', (event.format_readsBack line hclean).mpr hne⟩
  · intro event old hne hclean hdecimals
    rw [event.messageColumns_populate old, OneStringTenDecimal.numbers]
    refine ⟨List.pairwise_lt_range', ?_⟩
    exact (event.format_readsBack line hclean fun i => (hdecimals i).2).mpr hne
  · intro event old hfields
    rw [event.messageColumns_populate old, TenStringFiftyDecimal.numbers]
    refine ⟨List.pairwise_lt_range', ?_⟩
    exact (event.format_readsBack line fun i => (hfields i).2).mpr (hfields 0).1

theorem makeIntEvent_columns_are_payload :
    ReadsBack
      (messageColumns (makeIntEvent.populate OneStringTenInt64.default).fields)
      (makeIntEvent.format (ByteBuffer.zeros kLogCapacity)) :=
  ((format_readsBack_populate _).1 makeIntEvent _ (by decide) clean_btcUsd).2

end Payload

end ProtobufKafkaBench.MarketEvents

import ProtobufKafkaBench.MeanThroughput

/-!
The Kafka table of the comparison of architectures. It takes the medians of the
elapsed times and divides them by a million, where the producer report divides
each row by its own iterations. The two agree on runs of a million messages, and
otherwise only where a median is zero.
-/
namespace ProtobufKafkaBench.KafkaMatrix

open ByteBuffers CsvTables Exceptions Grouping KafkaReports Medians
open AsyncReports (ordered)
open EncodingReports (sortedBy sortedBy_perm)

section Model

/-- `int(path.stem.rsplit("_", 1)[1])` of a name that ends in `.csv`. -/
def suffixNumber (name : Bytes) : Except PyError ℤ :=
  let stem := name.take (name.length - 4)
  intText (stem.reverse.takeWhile (· ≠ 95)).reverse

/-- `kafka_rows` over the shards of a directory, in the order of their numbers. -/
def kafkaRows (files : List (Bytes × CsvFile)) : Except PyError (List DictRow) := do
  let sorted ← sortedBy (fun a b : ℤ => a ≤ b) (fun file => suffixNumber file.1) files
  return sorted.flatMap fun file => file.2.rows

structure SortKey where
  mode : Option Bytes
  acks : ℕ
  compression : Option Bytes
  linger : ℤ
  batch : ℤ

/-- `["0", "1", "all"].index(item[1])`. -/
def acksIndex (acks : Option Bytes) : Except PyError ℕ :=
  match (["0", "1", "all"].map fun text => some (ascii text)).idxOf? acks with
  | none => .error .valueError
  | some index => return index

def intPart (part : Option Bytes) : Except PyError ℤ :=
  match part with
  | none => .error .typeError
  | some text => intText text

def sortKey (key : Key) : Except PyError SortKey := do
  let part (index : ℕ) := key.getD index none
  let acks ← acksIndex (part 1)
  let linger ← intPart (part 3)
  let batch ← intPart (part 4)
  return { mode := part 0, acks, compression := part 2, linger, batch }

/-- Tuples are compared at the first place where they differ. -/
def comparableKeys (a b : SortKey) : Bool :=
  if a.mode = b.mode then
    if a.acks = b.acks then ordered a.compression b.compression else true
  else ordered a.mode b.mode

def keyLe (a b : SortKey) : Bool :=
  let texts (key : Option Bytes) := key.getD []
  texts a.mode < texts b.mode ∨ texts a.mode = texts b.mode ∧
    (a.acks < b.acks ∨ a.acks = b.acks ∧
      (texts a.compression < texts b.compression ∨ texts a.compression = texts b.compression ∧
        (a.linger < b.linger ∨ a.linger = b.linger ∧ a.batch ≤ b.batch)))

def sortedKeys (groups : List (Key × List DictRow)) : Except PyError (List Key) := do
  let keyed ← groups.mapM fun group => do return (← sortKey group.1, group.1)
  if keyed.all fun a => keyed.all fun b => comparableKeys a.1 b.1 then
    return (keyed.insertionSort fun a b => keyLe a.1 b.1 = true).map Prod.snd
  else .error .typeError

/-- Nanoseconds per message, from the handoff and from end to end. -/
structure Cells where
  enqueue : ℚ
  total : ℚ
  deriving DecidableEq

def cells (rows : List DictRow) : Except PyError Cells := do
  let enqueue := (← AsyncReports.median rows (ascii "enqueue_elapsed_ns")) / 1000000
  let total := (← AsyncReports.median rows (ascii "end_to_end_ns")) / 1000000
  return { enqueue, total }

def deliveryErrors (rows : List DictRow) : Except PyError ℤ := do
  return (← rows.mapM fun row => row.intItem (ascii "delivery_errors")).sum

structure Line where
  key : Key
  arm : Cells
  amd : Cells
  ratio : ℚ
  armErrors : ℤ
  amdErrors : ℤ
  deriving DecidableEq

/-- A key that the other architecture lacks has an empty group there. -/
def line (arm amd : List (Key × List DictRow)) (key : Key) : Except PyError Line := do
  let armRows := groupOf arm key
  let amdRows := groupOf amd key
  let armCells ← cells armRows
  let amdCells ← cells amdRows
  let armErrors ← deliveryErrors armRows
  let amdErrors ← deliveryErrors amdRows
  let ratio ← CompilerReport.divide amdCells.total armCells.total
  return { key, arm := armCells, amd := amdCells, ratio, armErrors, amdErrors }

/-- `kafka_matrix` on the shards of one architecture and the merged table of the other. -/
def kafkaMatrix (armFiles : List (Bytes × CsvFile)) (amdFile : CsvFile) :
    Except PyError (List Line) := do
  let armRows ← kafkaRows armFiles
  let arm ← groupRowsM rowKey armRows
  let amd ← groupRowsM rowKey amdFile.rows
  (← sortedKeys arm).mapM (line arm amd)

end Model

section Report

variable {files : List CsvFile} {metadata : Bytes} {report : Report}

/-- `int(metadata.get("iterations", "1000000"))`. -/
def expectedIterations (metadata : Bytes) : Except PyError ℤ :=
  intText ((readMetadata metadata (ascii "iterations")).getD (ascii "1000000"))

/-- A column of some rows, read as numbers. -/
def column (name : Bytes) (rows : List DictRow) : List ℚ :=
  rows.map fun row => (row.floatItem name).toOption.getD 0

theorem rowKey_eq_ok (row : DictRow) (key : Key) (h : rowKey row = .ok key) :
    configuration row = key := by
  refine (eq_map_of_mapM ?_ h).symm
  intro name value hvalue
  rw [DictRow.lookup_of_item hvalue]
  rfl

theorem validateRows_iterations {path : Bytes} {rows : List DictRow} {iterations repetitions : ℤ}
    (h : validateRows path rows iterations repetitions = .ok ()) :
    ∀ row ∈ rows, row.intItem (ascii "iterations") = .ok iterations := by
  obtain ⟨-, h⟩ := guard_eq_ok.mp h
  obtain ⟨numbers, hnumbers, -⟩ := bind_eq_ok.mp h
  intro row hrow
  obtain ⟨number, -, hnumber⟩ := exists_result_of_mapM hnumbers hrow
  exact (repetitionOf_eq_ok.mp hnumber).1

theorem perMessage_eq_ok {name : Bytes} {row : DictRow} {value : ℚ} {iterations : ℤ}
    (hrow : row.intItem (ascii "iterations") = .ok iterations)
    (h : perMessage name row = .ok value) :
    iterations ≠ 0 ∧ value = (row.floatItem name).toOption.getD 0 / iterations := by
  obtain ⟨elapsed, helapsed, h⟩ := bind_eq_ok.mp h
  obtain ⟨n, hn, h⟩ := bind_eq_ok.mp h
  obtain ⟨hzero, h⟩ := guard_eq_ok.mp h
  obtain rfl := Except.ok.inj h
  obtain rfl := Except.ok.inj (hn.symm.trans hrow)
  rw [helapsed]
  exact ⟨hzero, rfl⟩

/-- Each value is that of its row, divided by the iterations of the row. -/
theorem perMessages_eq_ok {name : Bytes} {rows : List DictRow} {values : List ℚ}
    {iterations : ℤ} (hrows : ∀ row ∈ rows, row.intItem (ascii "iterations") = .ok iterations)
    (h : rows.mapM (perMessage name) = .ok values) :
    values = (column name rows).map (· / (iterations : ℚ)) := by
  have hvalues : ∀ row ∈ rows, perMessage name row =
      .ok ((row.floatItem name).toOption.getD 0 / iterations) := by
    intro row hrow
    obtain ⟨value, -, hvalue⟩ := exists_result_of_mapM h hrow
    rw [hvalue, (perMessage_eq_ok (hrows row hrow) hvalue).2]
  rw [column, List.map_map]
  exact Except.ok.inj (h.symm.trans (mapM_ok hvalues))

theorem reportRow_eq_ok {group : Key × List DictRow} {line : ReportRow}
    (h : reportRow group = .ok line) :
    line.key = group.1 ∧
      group.2.mapM (perMessage (ascii "enqueue_elapsed_ns")) = .ok line.enqueue ∧
      group.2.mapM (perMessage (ascii "end_to_end_ns")) = .ok line.total := by
  obtain ⟨enqueue, henqueue, h⟩ := bind_eq_ok.mp h
  obtain ⟨total, htotal, h⟩ := bind_eq_ok.mp h
  obtain ⟨errors, -, h⟩ := bind_eq_ok.mp h
  cases hlast : group.2.getLast? with
  | none =>
    rw [hlast] at h
    cases h
  | some row =>
    rw [hlast] at h
    obtain ⟨bytes, -, h⟩ := bind_eq_ok.mp h
    obtain rfl := Except.ok.inj h
    exact ⟨rfl, henqueue, htotal⟩

/-- What the producer report says about its rows: they have the expected iterations, not
zero, and there is a line for each configuration, with its columns. -/
structure Reported (rows : List DictRow) (iterations : ℤ) (lines : List ReportRow) : Prop where
  nonzero : rows ≠ [] → iterations ≠ 0
  lines_of : ∀ line ∈ lines,
    line.enqueue = (column (ascii "enqueue_elapsed_ns") (withKey configuration rows line.key)).map
      (· / (iterations : ℚ)) ∧
    line.total = (column (ascii "end_to_end_ns") (withKey configuration rows line.key)).map
      (· / (iterations : ℚ))
  complete : ∀ key ∈ rows.map configuration, ∃ line ∈ lines, line.key = key

theorem kafkaReport_eq_ok (h : kafkaReport files metadata = .ok report) :
    expectedIterations metadata = .ok report.iterations ∧
      Reported (files.flatMap CsvFile.rows) report.iterations report.rows := by
  obtain ⟨-, h⟩ := guard_eq_ok.mp h
  obtain ⟨groups, hgroups, h⟩ := bind_eq_ok.mp h
  obtain ⟨iterations, hiterations, h⟩ := bind_eq_ok.mp h
  obtain ⟨repetitions, -, h⟩ := bind_eq_ok.mp h
  obtain ⟨⟨⟩, hvalid, h⟩ := bind_eq_ok.mp h
  obtain ⟨lines, hlines, h⟩ := bind_eq_ok.mp h
  obtain rfl := Except.ok.inj h
  have hgroups' := groupRows_of_groupRowsM rowKey_eq_ok hgroups
  subst hgroups'
  have hexpected : ∀ group ∈ groupRows configuration (files.flatMap CsvFile.rows),
      ∀ row ∈ group.2, row.intItem (ascii "iterations") = .ok iterations := by
    intro group hgroup
    obtain ⟨name, -, hrows⟩ := bind_eq_ok.mp (forM_eq_ok.mp hvalid group hgroup)
    exact validateRows_iterations hrows
  have hsorted := List.mergeSort_perm (groupRows configuration (files.flatMap CsvFile.rows))
    fun a b => decide (a.1.map (fun part => part.getD []) ≤ b.1.map fun part => part.getD [])
  have hline : ∀ group ∈ groupRows configuration (files.flatMap CsvFile.rows),
      ∃ line ∈ lines, reportRow group = .ok line := by
    intro group hgroup
    exact exists_result_of_mapM hlines (hsorted.mem_iff.mpr hgroup)
  refine ⟨hiterations, { nonzero := ?_, lines_of := ?_, complete := ?_ }⟩
  · intro hne
    obtain ⟨row, hrow⟩ := List.exists_mem_of_ne_nil _ hne
    obtain ⟨group, hgroup, hkey⟩ := List.mem_map.mp
      ((mem_keys_groupRows configuration _ _).mpr (List.mem_map_of_mem hrow))
    have hmem : row ∈ group.2 := by
      rw [groupRows_values configuration _ group hgroup]
      exact List.mem_filter.mpr ⟨hrow, decide_eq_true hkey.symm⟩
    obtain ⟨line, -, hgroup'⟩ := hline group hgroup
    obtain ⟨value, -, hvalue⟩ := exists_result_of_mapM (reportRow_eq_ok hgroup').2.1 hmem
    exact (perMessage_eq_ok (hexpected group hgroup row hmem) hvalue).1
  · intro line hmem
    obtain ⟨group, hgroup, hgroup'⟩ := exists_value_of_mapM hlines hmem
    have hgroup := hsorted.mem_iff.mp hgroup
    obtain ⟨hkey, henqueue, htotal⟩ := reportRow_eq_ok hgroup'
    rw [hkey, ← groupRows_values configuration _ group hgroup]
    exact ⟨perMessages_eq_ok (hexpected group hgroup) henqueue,
      perMessages_eq_ok (hexpected group hgroup) htotal⟩
  · intro key hkey
    obtain ⟨group, hgroup, rfl⟩ := List.mem_map.mp
      ((mem_keys_groupRows configuration _ _).mpr hkey)
    obtain ⟨line, hmem, hgroup'⟩ := hline group hgroup
    exact ⟨line, hmem, (reportRow_eq_ok hgroup').1⟩

end Report

section Matrix

variable {armFiles : List (Bytes × CsvFile)} {amdFile : CsvFile} {lines : List Line}

/-- The sum of the two middle values, twice the median. -/
def middles (values : List ℚ) : ℚ := lowerMiddle values + upperMiddle values

theorem middles_perm {values other : List ℚ} (h : values.Perm other) :
    middles values = middles other := by
  simp only [middles, lowerMiddle, upperMiddle, NearestRanks.sortedValues_eq_of_perm h,
    h.length_eq]

theorem column_perm {rows other : List DictRow} (h : rows.Perm other) (name : Bytes) (key : Key) :
    middles (column name (withKey configuration rows key)) =
      middles (column name (withKey configuration other key)) :=
  middles_perm ((h.filter _).map _)

theorem median_eq_ok {rows : List DictRow} {name : Bytes} {value : ℚ}
    (h : AsyncReports.median rows name = .ok value) :
    rows ≠ [] ∧ value = middles (column name rows) / 2 := by
  obtain ⟨values, hvalues, h⟩ := bind_eq_ok.mp h
  have hcolumn : values = column name rows := by
    apply eq_map_of_mapM _ hvalues
    intro row q hq
    rw [hq]
    rfl
  subst hcolumn
  cases rows with
  | nil => cases h
  | cons row rest =>
    have hne : column name (row :: rest) ≠ [] := List.cons_ne_nil _ _
    rw [median_eq hne] at h
    exact ⟨List.cons_ne_nil row rest, (Except.ok.inj h).symm⟩

theorem cells_eq_ok {rows : List DictRow} {result : Cells} (h : cells rows = .ok result) :
    rows ≠ [] ∧
      result.enqueue = middles (column (ascii "enqueue_elapsed_ns") rows) / 2 / 1000000 ∧
      result.total = middles (column (ascii "end_to_end_ns") rows) / 2 / 1000000 := by
  obtain ⟨enqueue, henqueue, h⟩ := bind_eq_ok.mp h
  obtain ⟨total, htotal, h⟩ := bind_eq_ok.mp h
  obtain rfl := Except.ok.inj h
  obtain ⟨hne, rfl⟩ := median_eq_ok henqueue
  obtain ⟨-, rfl⟩ := median_eq_ok htotal
  exact ⟨hne, rfl, rfl⟩

theorem sortedKeys_perm {groups : List (Key × List DictRow)} {keys : List Key}
    (h : sortedKeys groups = .ok keys) : keys.Perm (groups.map Prod.fst) := by
  obtain ⟨keyed, hkeyed, h⟩ := bind_eq_ok.mp h
  have hnames : keyed.map Prod.snd = groups.map Prod.fst := by
    apply map_eq_map_of_mapM _ hkeyed
    intro group entry hentry
    obtain ⟨k, -, heq⟩ := bind_eq_ok.mp hentry
    exact congrArg Prod.snd (Except.ok.inj heq).symm
  by_cases hcomparable : (keyed.all fun a => keyed.all fun b => comparableKeys a.1 b.1) = true
  · rw [if_pos hcomparable] at h
    obtain rfl := Except.ok.inj h
    rw [← hnames]
    exact (List.perm_insertionSort _ keyed).map Prod.snd
  · rw [if_neg hcomparable] at h
    cases h

theorem line_eq_ok {arm amd : List (Key × List DictRow)} {key : Key} {result : Line}
    (h : line arm amd key = .ok result) :
    result.key = key ∧ cells (groupOf arm key) = .ok result.arm ∧
      cells (groupOf amd key) = .ok result.amd := by
  obtain ⟨armCells, harm, h⟩ := bind_eq_ok.mp h
  obtain ⟨amdCells, hamd, h⟩ := bind_eq_ok.mp h
  obtain ⟨armErrors, -, h⟩ := bind_eq_ok.mp h
  obtain ⟨amdErrors, -, h⟩ := bind_eq_ok.mp h
  obtain ⟨ratio, -, h⟩ := bind_eq_ok.mp h
  obtain rfl := Except.ok.inj h
  exact ⟨rfl, harm, hamd⟩

/-- The lines of the matrix are those of the configurations of the shards, with the
cells of both architectures. -/
theorem kafkaMatrix_eq_ok (h : kafkaMatrix armFiles amdFile = .ok lines) :
    ∃ armRows, armRows.Perm (armFiles.flatMap fun file => file.2.rows) ∧
      (∀ line ∈ lines, line.key ∈ armRows.map configuration ∧
        cells (withKey configuration armRows line.key) = .ok line.arm ∧
        cells (withKey configuration amdFile.rows line.key) = .ok line.amd) ∧
      ∀ key ∈ armRows.map configuration, ∃ line ∈ lines, line.key = key := by
  obtain ⟨armRows, harmRows, h⟩ := bind_eq_ok.mp h
  obtain ⟨arm, harm, h⟩ := bind_eq_ok.mp h
  obtain ⟨amd, hamd, h⟩ := bind_eq_ok.mp h
  obtain ⟨keys, hkeys, hlines⟩ := bind_eq_ok.mp h
  have harm' := groupRows_of_groupRowsM rowKey_eq_ok harm
  have hamd' := groupRows_of_groupRowsM rowKey_eq_ok hamd
  subst harm' hamd'
  obtain ⟨sorted, hsorted, hrows⟩ := bind_eq_ok.mp harmRows
  obtain rfl := Except.ok.inj hrows
  have hkeys' : ∀ key, key ∈ keys ↔ key ∈ (sorted.flatMap fun file => file.2.rows).map
      configuration := by
    intro key
    rw [(sortedKeys_perm hkeys).mem_iff]
    exact mem_keys_groupRows configuration _ key
  refine ⟨_, (sortedBy_perm hsorted).flatMap_right _, ?_, ?_⟩
  · intro result hresult
    obtain ⟨key, hkey, hline⟩ := exists_value_of_mapM hlines hresult
    obtain ⟨hkey', harmCells, hamdCells⟩ := line_eq_ok hline
    rw [groupOf_groupRows] at harmCells hamdCells
    rw [hkey']
    exact ⟨(hkeys' key).mp hkey, harmCells, hamdCells⟩
  · intro key hkey
    obtain ⟨result, hresult, hline⟩ := exists_result_of_mapM hlines ((hkeys' key).mpr hkey)
    exact ⟨result, hresult, (line_eq_ok hline).1⟩

inductive Side
  | arm
  | amd

/-- The rows of one side, and its cells in a line. -/
def Side.rows (side : Side) (armFiles : List (Bytes × CsvFile)) (amdFile : CsvFile) :
    List DictRow :=
  match side with
  | .arm => armFiles.flatMap fun file => file.2.rows
  | .amd => amdFile.rows

def Side.cells (side : Side) (line : Line) : Cells :=
  match side with
  | .arm => line.arm
  | .amd => line.amd

theorem quotient_eq_iff {x iterations : ℚ} (h : iterations ≠ 0) :
    x / 2 / iterations = x / 2 / 1000000 ↔ x = 0 ∨ iterations = 1000000 := by
  rw [div_div, div_div, div_eq_div_iff (by simpa using h) (by norm_num), mul_eq_mul_left_iff]
  constructor
  · intro hx
    rcases hx with hx | hx
    · right
      linarith
    · left
      exact hx
  · intro hx
    rcases hx with hx | hx
    · right
      exact hx
    · left
      rw [hx]

end Matrix

section Agreement

variable {files : List CsvFile} {metadata : Bytes} {report : Report}
  {armFiles : List (Bytes × CsvFile)} {amdFile : CsvFile} {lines : List Line}

/-- The medians of both reports are the same for each configuration they share. -/
def Agrees (side : Side) (lines : List Line) (report : Report) : Prop :=
  ∀ line ∈ lines, ∀ row ∈ report.rows, row.key = line.key →
    Medians.median row.enqueue = some (side.cells line).enqueue ∧
      Medians.median row.total = some (side.cells line).total

/-- Twice the medians of both columns are zero in a configuration. -/
def ZeroMedians (rows : List DictRow) (key : Key) : Prop :=
  middles (column (ascii "enqueue_elapsed_ns") (withKey configuration rows key)) = 0 ∧
    middles (column (ascii "end_to_end_ns") (withKey configuration rows key)) = 0

/-- A line of the matrix has the cells of its configuration, from the rows of either side in
whatever order. -/
theorem side_cells {side : Side} {rows : List DictRow}
    (h : kafkaMatrix armFiles amdFile = .ok lines)
    (hrows : (side.rows armFiles amdFile).Perm rows) :
    ∀ line ∈ lines, withKey configuration rows line.key ≠ [] ∧
      (side.cells line).enqueue = middles (column (ascii "enqueue_elapsed_ns")
        (withKey configuration rows line.key)) / 2 / 1000000 ∧
      (side.cells line).total = middles (column (ascii "end_to_end_ns")
        (withKey configuration rows line.key)) / 2 / 1000000 := by
  obtain ⟨armRows, hperm, hlines, -⟩ := kafkaMatrix_eq_ok h
  intro line hline
  obtain ⟨-, harm, hamd⟩ := hlines line hline
  have hcells : ∃ found, found.Perm rows ∧
      cells (withKey configuration found line.key) = .ok (side.cells line) := by
    cases side with
    | arm => exact ⟨armRows, hperm.trans hrows, harm⟩
    | amd => exact ⟨amdFile.rows, hrows, hamd⟩
  obtain ⟨found, hfound, hcells⟩ := hcells
  obtain ⟨hne, henqueue, htotal⟩ := cells_eq_ok hcells
  rw [column_perm hfound] at henqueue htotal
  refine ⟨?_, henqueue, htotal⟩
  intro hnil
  have hfiltered : (withKey configuration found line.key).Perm
      (withKey configuration rows line.key) := hfound.filter _
  rw [hnil] at hfiltered
  exact hne hfiltered.eq_nil

/-- One cell of the two reports. -/
theorem cell_agrees_iff {values : List ℚ} (hne : values ≠ []) {iterations : ℤ}
    (h : iterations ≠ 0) :
    Medians.median (values.map (· / (iterations : ℚ))) = some (middles values / 2 / 1000000) ↔
      middles values = 0 ∨ iterations = 1000000 := by
  have hcast : (iterations : ℚ) ≠ 0 := Int.cast_ne_zero.mpr h
  rw [median_map_div hne hcast, Option.some.injEq, ← middles, quotient_eq_iff hcast]
  norm_cast

/-- The two reports agree on the rows of one side exactly if the runs are of a million
messages, or the medians of every configuration are zero. -/
theorem matrix_agrees_iff (side : Side) (hreport : kafkaReport files metadata = .ok report)
    (hmatrix : kafkaMatrix armFiles amdFile = .ok lines)
    (hrows : (side.rows armFiles amdFile).Perm (files.flatMap CsvFile.rows)) :
    Agrees side lines report ↔
      expectedIterations metadata = .ok 1000000 ∨
        ∀ key ∈ (Side.arm.rows armFiles amdFile).map configuration,
          ZeroMedians (files.flatMap CsvFile.rows) key := by
  obtain ⟨hiterations, hreported⟩ := kafkaReport_eq_ok hreport
  have hside := side_cells hmatrix hrows
  obtain ⟨armRows, harm, hkeys, hcomplete⟩ := kafkaMatrix_eq_ok hmatrix
  have hline : ∀ line ∈ lines, ∀ row ∈ report.rows, row.key = line.key →
      ((Medians.median row.enqueue = some (side.cells line).enqueue ∧
        Medians.median row.total = some (side.cells line).total) ↔
      report.iterations = 1000000 ∨ ZeroMedians (files.flatMap CsvFile.rows) line.key) := by
    intro line hmem row hrow hkey
    obtain ⟨hne, henqueue, htotal⟩ := hside line hmem
    obtain ⟨henqueue', htotal'⟩ := hreported.lines_of row hrow
    have hcolumn : ∀ name,
        column name (withKey configuration (files.flatMap CsvFile.rows) line.key) ≠ [] :=
      fun name => List.map_eq_nil_iff.not.mpr hne
    have hnonzero : report.iterations ≠ 0 := by
      apply hreported.nonzero
      intro hnil
      rw [hnil] at hne
      exact hne rfl
    rw [henqueue', htotal', hkey, henqueue, htotal, cell_agrees_iff (hcolumn _) hnonzero,
      cell_agrees_iff (hcolumn _) hnonzero, ← and_or_right, or_comm, ZeroMedians]
  have hmillion : expectedIterations metadata = .ok 1000000 ↔ report.iterations = 1000000 := by
    rw [hiterations, Except.ok.injEq]
  have hkeys' : ∀ key, key ∈ (Side.arm.rows armFiles amdFile).map configuration ↔
      key ∈ armRows.map configuration := fun key => ((harm.map configuration).mem_iff).symm
  rw [hmillion]
  constructor
  · intro hagrees
    by_cases heq : report.iterations = 1000000
    · exact Or.inl heq
    · right
      intro key hkey
      obtain ⟨line, hmem, rfl⟩ := hcomplete key ((hkeys' key).mp hkey)
      obtain ⟨row, hrow⟩ := List.exists_mem_of_ne_nil _ (hside line hmem).1
      obtain ⟨hrow, hconfiguration⟩ := List.mem_filter.mp hrow
      obtain ⟨reported, hreported', hkey'⟩ := hreported.complete line.key
        (of_decide_eq_true hconfiguration ▸ List.mem_map_of_mem hrow)
      have hboth := (hline line hmem reported hreported' hkey').mp
        (hagrees line hmem reported hreported' hkey')
      exact hboth.resolve_left heq
  · intro hcondition line hmem row hrow hkey
    apply (hline line hmem row hrow hkey).mpr
    rcases hcondition with heq | hzero
    · exact Or.inl heq
    · right
      exact hzero line.key ((hkeys' line.key).mpr (hkeys line hmem).1)

/-- Ten repetitions of one configuration, of so many messages each. -/
def producerTable (iterations : String) : CsvFile where
  header := ["repetition", "iterations", "bytes", "enqueue_elapsed_ns", "end_to_end_ns",
    "delivery_errors", "mode", "acks", "compression", "linger_ms", "batch_num_messages"].map ascii
  records := ["1", "2", "3", "4", "5", "6", "7", "8", "9", "10"].map fun repetition =>
    [repetition, iterations, "49", "500000000", "900000000", "0", "copy", "0", "none", "0",
      "1"].map ascii

def producerMetadata (iterations : String) : Bytes :=
  ascii "iterations=" ++ ascii iterations ++ ascii "\nrepetitions=10\n"

/-- Two million messages for each repetition, as rows of either architecture. -/
def twoMillion : List (Bytes × CsvFile) :=
  [(ascii "kafka_producer_1.csv", producerTable "2000000")]

theorem twoMillion_reported :
    ∃ report, kafkaReport [producerTable "2000000"] (producerMetadata "2000000") = .ok report :=
  exists_ok (by decide +kernel)

theorem twoMillion_matrix :
    ∃ lines, kafkaMatrix twoMillion (producerTable "2000000") = .ok lines :=
  exists_ok (by decide +kernel)

theorem matrix_agrees_iff_twoMillion :
    ∃ report lines,
      kafkaReport [producerTable "2000000"] (producerMetadata "2000000") = .ok report ∧
      kafkaMatrix twoMillion (producerTable "2000000") = .ok lines ∧
      (Agrees .arm lines report ↔
        expectedIterations (producerMetadata "2000000") = .ok 1000000 ∨
          ∀ key ∈ (Side.arm.rows twoMillion (producerTable "2000000")).map configuration,
            ZeroMedians ([producerTable "2000000"].flatMap CsvFile.rows) key) := by
  obtain ⟨report, hreport⟩ := twoMillion_reported
  obtain ⟨lines, hlines⟩ := twoMillion_matrix
  exact ⟨report, lines, hreport, hlines,
    matrix_agrees_iff .arm hreport hlines (List.Perm.refl _)⟩

/-- 500 ms for two million messages are 250 ns each in one report and 500 in the other. -/
theorem twoMillion_disagree :
    ∃ report lines,
      kafkaReport [producerTable "2000000"] (producerMetadata "2000000") = .ok report ∧
      kafkaMatrix twoMillion (producerTable "2000000") = .ok lines ∧
      ¬ Agrees .arm lines report := by
  have hdiffer : ∃ line ∈ (kafkaMatrix twoMillion (producerTable "2000000")).toOption.getD [],
      ∃ row ∈ ((kafkaReport [producerTable "2000000"]
        (producerMetadata "2000000")).toOption.map Report.rows).getD [],
        row.key = line.key ∧ Medians.median row.enqueue ≠ some line.arm.enqueue := by
    decide +kernel
  obtain ⟨report, hreport⟩ := twoMillion_reported
  obtain ⟨lines, hlines⟩ := twoMillion_matrix
  rw [hreport, hlines] at hdiffer
  obtain ⟨line, hline, row, hrow, hkey, hne⟩ := hdiffer
  refine ⟨report, lines, hreport, hlines, ?_⟩
  intro hagrees
  exact hne (hagrees line hline row hrow hkey).1

end Agreement

end ProtobufKafkaBench.KafkaMatrix

import ProtobufKafkaBench.EncodeTables
import ProtobufKafkaBench.MeanThroughput

/-!
The comparison of compilers on the tables of whole runs of the encoding benchmark. It is written
exactly if each variant was run with a million iterations and ten repetitions, and then it has the
36 configurations of each variant, with the statistics of their own ten times.
-/
namespace ProtobufKafkaBench.CompilerReport

open AsyncReports ByteBuffers CsvReaders CsvTables EncodeBenchmark EncodingReports Exceptions
open Grouping JsonObjects KafkaReports
open CountedLoops (forBelow forBelow_zero)
open EncodingReports (mem_sortedTexts shownName)

section Runs

/-- A directory with the table of a run that has come to its end. Each time that is printed for a
call reads as a positive number. -/
structure VariantRun where
  name : Bytes
  metadata : Bytes
  args : List Bytes
  config : EncodeBenchmark.Config
  parsed : EncodeBenchmark.parseArgs args = .ok config
  printer : Printer
  rows : List EncodeBenchmark.Row
  returned : ∃ (World : Type) (platform : Platform World) (fuel : ℕ) (before after : World),
    runPlan platform config fuel { world := before, rows := [] } = some { world := after, rows }
  measured : ∀ row ∈ rows, ∃ q, pyFloat (printer.print row.nsPerEncode) = some q ∧ 0 < q

namespace VariantRun

variable (run : VariantRun)

/-- The rows of a configuration, and their times as they are read. -/
def block (entry : Entry) : List EncodeBenchmark.Row :=
  withKey EncodeBenchmark.Row.columns run.rows entry.columns

def time (row : EncodeBenchmark.Row) : ℚ := (pyFloat (run.printer.print row.nsPerEncode)).getD 0

def times (entry : Entry) : List ℚ := (run.block entry).map run.time

theorem repetitions_pos : 10 ≤ run.config.repetitions.toNat := by
  obtain ⟨parsed, -, hcheck⟩ := bind_eq_ok.mp run.parsed
  obtain ⟨hsize, hconfig⟩ := guard_eq_ok.mp hcheck
  obtain rfl := Except.ok.inj hconfig
  omega

theorem block_ne_nil {config : EncodeBenchmark.Config} {entry : Entry}
    {rows : List EncodeBenchmark.Row} (h : BlockOf config entry rows)
    (hpos : 0 < config.repetitions.toNat) : rows ≠ [] := by
  intro hnil
  have hlength := congrArg List.length h.repetitions
  rw [hnil, List.map_nil, List.length_nil, List.length_range'] at hlength
  omega

/-- The table is made of the blocks of the plan. -/
theorem rows_eq : run.rows = plan.flatMap run.block ∧
    ∀ entry ∈ plan, BlockOf run.config entry (run.block entry) := by
  obtain ⟨World, platform, fuel, before, after, hreturned⟩ := run.returned
  obtain ⟨blocks, hplan, hrows, hblocks⟩ := runPlan_blocks hreturned
  have hpos := run.repetitions_pos
  rw [List.nil_append] at hrows
  change run.rows = _ at hrows
  have hgroups : groupRows EncodeBenchmark.Row.columns run.rows =
      blocks.map fun block => (block.1.columns, block.2) := by
    rw [hrows]
    refine groupRows_blocks ?_ (fun block hblock => (hblocks block hblock).columns)
      fun block hblock => block_ne_nil (hblocks block hblock) (by omega)
    have hcolumns : blocks.map (fun block => block.1.columns) = plan.map Entry.columns := by
      rw [← hplan, List.map_map]
      rfl
    rw [hcolumns]
    exact plan_nodup
  have hsame : ∀ block ∈ blocks, block.2 = run.block block.1 := by
    intro block hblock
    have hmem : (block.1.columns, block.2) ∈ groupRows EncodeBenchmark.Row.columns run.rows := by
      rw [hgroups]
      exact List.mem_map_of_mem hblock
    exact groupRows_values EncodeBenchmark.Row.columns run.rows _ hmem
  constructor
  · rw [hrows, List.flatMap_congr hsame, ← hplan, List.flatMap_map]
  · intro entry hentry
    rw [← hplan] at hentry
    obtain ⟨block, hblock, rfl⟩ := List.mem_map.mp hentry
    rw [← hsame block hblock]
    exact hblocks block hblock

theorem block_length {entry : Entry} (h : entry ∈ plan) :
    (run.block entry).length = run.config.repetitions.toNat := by
  have hlength := congrArg List.length (run.rows_eq.2 entry h).repetitions
  rwa [List.length_map, List.length_range'] at hlength

theorem rows_length : run.rows.length = 36 * run.config.repetitions.toNat := by
  have hblocks : plan.map (fun entry => (run.block entry).length) =
      plan.map fun _ => run.config.repetitions.toNat :=
    List.map_congr_left fun entry hentry => run.block_length hentry
  rw [run.rows_eq.1, List.length_flatMap, hblocks, List.map_const', List.sum_replicate,
    plan_length, smul_eq_mul]

/-- A row is one of the block of some configuration. -/
theorem exists_entry {row : EncodeBenchmark.Row} (h : row ∈ run.rows) :
    ∃ entry ∈ plan, row ∈ run.block entry := by
  rw [run.rows_eq.1] at h
  exact List.mem_flatMap.mp h

theorem iterations_eq {row : EncodeBenchmark.Row} (h : row ∈ run.rows) :
    row.iterations = run.config.iterations := by
  obtain ⟨entry, hentry, hrow⟩ := run.exists_entry h
  exact (run.rows_eq.2 entry hentry).iterations row hrow

theorem times_ne_nil {entry : Entry} (h : entry ∈ plan) : run.times entry ≠ [] := by
  have hne := block_ne_nil (run.rows_eq.2 entry h) (by have := run.repetitions_pos; omega)
  exact List.map_eq_nil_iff.not.mpr hne

theorem times_pos {entry : Entry} : ∀ ns ∈ run.times entry, 0 < ns := by
  intro ns hns
  obtain ⟨row, hrow, rfl⟩ := List.mem_map.mp hns
  obtain ⟨q, hq, hpos⟩ := run.measured row (List.mem_of_mem_filter hrow)
  rw [time, hq]
  exact hpos

end VariantRun

end Runs

section Reading

/-- The key that the report makes of the columns of a configuration. -/
def keyOf (columns : List Bytes) : ConfigKey where
  kind := columns[0]?
  library := columns[1]?
  codegen := columns[2]?
  api := columns[3]?
  testCase := columns[4]?

theorem keys_nodup : (plan.map fun entry => keyOf entry.columns).Nodup := by decide +kernel

/-- A row as the report reads it. -/
def readRow (printer : Printer) (row : EncodeBenchmark.Row) : DictRow :=
  dictRow EncodeBenchmark.header (EncodeBenchmark.record printer row)

variable {printer : Printer} {row : EncodeBenchmark.Row}

theorem configKey_readRow : configKey (readRow printer row) = .ok (keyOf row.columns) := rfl

theorem readRow_numbers :
    (readRow printer row).item (ascii "repetition") =
        .ok (some (decimalDigits row.repetition.toNat)) ∧
      (readRow printer row).item (ascii "iterations") =
        .ok (some (decimalDigits row.iterations.toNat)) ∧
      (readRow printer row).item (ascii "ns_per_encode") =
        .ok (some (printer.print row.nsPerEncode)) :=
  ⟨rfl, rfl, rfl⟩

theorem repetition_readRow : (readRow printer row).intItem (ascii "repetition") =
    .ok (row.repetition.toNat : ℤ) :=
  intItem_of_item readRow_numbers.1 (pyInt_decimalDigits _)

theorem iterations_readRow : (readRow printer row).intItem (ascii "iterations") =
    .ok (row.iterations.toNat : ℤ) :=
  intItem_of_item readRow_numbers.2.1 (pyInt_decimalDigits _)

theorem timeEntry_readRow {q : ℚ} (h : pyFloat (printer.print row.nsPerEncode) = some q) :
    timeEntry (readRow printer row) = .ok (keyOf row.columns, q) := by
  have hfloat := floatItem_of_item (@readRow_numbers printer row).2.2 h
  unfold timeEntry
  rw [configKey_readRow, hfloat]
  rfl

namespace VariantRun

variable (run : VariantRun)

/-- The table that the run leaves, and what the csv reader makes of it. -/
def csv : Bytes := csvText run.printer run.rows

def table : CsvFile where
  header := EncodeBenchmark.header
  records := run.rows.map (EncodeBenchmark.record run.printer)

def variant : Variant where
  name := run.name
  raw := run.table
  metadata := run.metadata

theorem readTable_csv : readTable run.csv = some run.table := by
  rw [csv, csvText_eq]
  refine readTable_text header_plain fun record hrecord => ?_
  obtain ⟨row, hrow, rfl⟩ := List.mem_map.mp hrecord
  obtain ⟨entry, hentry, hblock⟩ := run.exists_entry hrow
  exact record_plain run.printer hentry ((run.rows_eq.2 entry hentry).columns row hblock)

theorem table_rows : run.table.rows = run.rows.map (readRow run.printer) := by
  unfold CsvFile.rows table
  rw [List.map_map]
  rfl

theorem timeEntry_row {row : EncodeBenchmark.Row} (h : row ∈ run.rows) :
    timeEntry (readRow run.printer row) = .ok (keyOf row.columns, run.time row) := by
  obtain ⟨q, hq, -⟩ := run.measured row h
  have htime : run.time row = q := by
    rw [time, hq]
    rfl
  rw [htime]
  exact timeEntry_readRow hq

/-- The report groups the rows of the table by the configurations of the plan. -/
theorem timesByKey_table : timesByKey run.table.rows =
    .ok (plan.map fun entry => (keyOf entry.columns, run.times entry)) := by
  have hentries : run.table.rows.mapM timeEntry =
      .ok (run.rows.map fun row => (keyOf row.columns, run.time row)) := by
    rw [table_rows, List.mapM_map]
    exact mapM_ok fun row hrow => run.timeEntry_row hrow
  have hgroups : groupRows (fun row : EncodeBenchmark.Row => keyOf row.columns) run.rows =
      plan.map fun entry => (keyOf entry.columns, run.block entry) := by
    have hrows := run.rows_eq
    have hpos := run.repetitions_pos
    refine (congrArg _ hrows.1).trans (groupRows_blocks keys_nodup ?_ ?_)
    · intro entry hentry row hrow
      rw [(hrows.2 entry hentry).columns row hrow]
    · exact fun entry hentry => block_ne_nil (hrows.2 entry hentry) (by omega)
  unfold timesByKey
  rw [hentries]
  change Except.ok _ = _
  rw [groupRows_map, List.map_map]
  change Except.ok ((groupRows (fun row : EncodeBenchmark.Row => keyOf row.columns)
    run.rows).map _) = _
  rw [hgroups, List.map_map]
  refine congrArg Except.ok (List.map_congr_left fun entry _ => Prod.ext rfl ?_)
  exact List.map_map

end VariantRun

end Reading

section Acceptance

variable (run : VariantRun)

/-- The numbers of the repetitions, over the whole table. -/
theorem repetitions_table (hten : run.config.repetitions.toNat = 10) :
    ∃ repetitions, (run.table.rows.mapM fun row => row.intItem (ascii "repetition")) =
      .ok repetitions ∧ repetitions.toFinset = [1, 2, 3, 4, 5, 6, 7, 8, 9, 10].toFinset := by
  refine ⟨run.rows.map fun row => (row.repetition.toNat : ℤ), ?_, ?_⟩
  · rw [run.table_rows, List.mapM_map]
    exact mapM_ok fun row _ => repetition_readRow
  · have hlabels : ∀ entry ∈ plan,
        (run.block entry).map (fun row => (row.repetition.toNat : ℤ)) =
          [1, 2, 3, 4, 5, 6, 7, 8, 9, 10] := by
      intro entry hentry
      have hblock := congrArg (List.map Int.ofNat) (run.rows_eq.2 entry hentry).repetitions
      rw [List.map_map, hten] at hblock
      exact hblock
    rw [run.rows_eq.1, List.map_flatMap, List.flatMap_congr hlabels]
    decide +kernel

/-- A table is accepted if the run had the counts that the report expects. -/
theorem acceptedGroups_table (hmillion : run.config.iterations.toNat = 1000000)
    (hten : run.config.repetitions.toNat = 10) :
    acceptedGroups run.name run.table.rows =
      .ok (plan.map fun entry => (keyOf entry.columns, run.times entry)) := by
  have hcount : run.table.rows.length = 360 := by
    rw [run.table_rows, List.length_map, run.rows_length, hten]
  have hiterations : (run.table.rows.mapM fun row => row.intItem (ascii "iterations")) =
      .ok (List.replicate 360 1000000) := by
    have hrow : ∀ row ∈ run.rows, (readRow run.printer row).intItem (ascii "iterations") =
        .ok 1000000 := by
      intro row hrow
      rw [iterations_readRow, run.iterations_eq hrow, hmillion]
      rfl
    rw [run.table_rows, List.mapM_map]
    refine (mapM_ok hrow).trans ?_
    rw [List.map_const', run.rows_length, hten]
  obtain ⟨repetitions, hrepetitions, hnumbers⟩ := repetitions_table run hten
  have hset : (List.replicate 360 (1000000 : ℤ)).toFinset = {1000000} := by
    rw [List.toFinset_replicate_of_ne_zero (by omega)]
  have hsizes : ¬ ((plan.map fun entry => (keyOf entry.columns, run.times entry)).length ≠ 36 ∨
      ∃ group ∈ plan.map fun entry => (keyOf entry.columns, run.times entry),
        group.2.length ≠ 10) := by
    rw [List.length_map, plan_length]
    rintro (hlength | ⟨group, hgroup, hlength⟩)
    · exact hlength rfl
    · obtain ⟨entry, hentry, rfl⟩ := List.mem_map.mp hgroup
      apply hlength
      change (run.times entry).length = 10
      rw [VariantRun.times, List.length_map, run.block_length hentry, hten]
  refine guard_eq_ok.mpr ⟨not_not.mpr hcount, bind_eq_ok.mpr ⟨_, hiterations,
    guard_eq_ok.mpr ⟨not_not.mpr hset, bind_eq_ok.mpr ⟨_, hrepetitions,
      guard_eq_ok.mpr ⟨not_not.mpr hnumbers, bind_eq_ok.mpr ⟨_, run.timesByKey_table,
        guard_eq_ok.mpr ⟨hsizes, rfl⟩⟩⟩⟩⟩⟩⟩

/-- No other table is. -/
theorem counts_of_accepted {groups : List TimeGroup}
    (h : acceptedGroups run.name run.table.rows = .ok groups) :
    run.config.iterations.toNat = 1000000 ∧ run.config.repetitions.toNat = 10 := by
  obtain ⟨hchecked, -⟩ := acceptedGroups_eq_ok h
  have hcount := hchecked.count
  rw [run.table_rows, List.length_map, run.rows_length] at hcount
  have hten : run.config.repetitions.toNat = 10 := by omega
  refine ⟨?_, hten⟩
  have hne : run.rows ≠ [] := by
    intro hnil
    have hlength := run.rows_length
    rw [hnil, List.length_nil, hten] at hlength
    cases hlength
  obtain ⟨row, hrow⟩ := List.exists_mem_of_ne_nil _ hne
  have hmem : readRow run.printer row ∈ run.table.rows := by
    rw [run.table_rows]
    exact List.mem_map_of_mem hrow
  have hmillion := hchecked.iterations _ hmem
  rw [iterations_readRow, run.iterations_eq hrow] at hmillion
  exact_mod_cast Except.ok.inj hmillion

end Acceptance

section Lines

/-- The line of a configuration. -/
def VariantRun.line (run : VariantRun) (entry : Entry) : Summary where
  variant := shownName run.variant
  compiler := (readMetadata run.metadata (ascii "compiler_name")).getD (ascii "unknown")
  standard := (readMetadata run.metadata (ascii "cxx_standard")).getD (ascii "unknown")
  key := keyOf entry.columns
  reps := (run.times entry).length
  median := (Medians.median (run.times entry)).getD 0
  mean := (run.times entry).sum / (run.times entry).length

variable {run : VariantRun} {entry : Entry}

theorem VariantRun.line_testCase (run : VariantRun) (entry : Entry) :
    (run.line entry).key.testCase = some (caseName entry.testCase) := rfl

theorem VariantRun.mean_pos (h : entry ∈ plan) : 0 < (run.line entry).mean :=
  Means.mean_pos (run.times_ne_nil h) run.times_pos

theorem summary_line (h : entry ∈ plan) :
    summary run.variant (keyOf entry.columns, run.times entry) = .ok (run.line entry) := by
  have hne := run.times_ne_nil h
  have hmedian := Medians.median_eq hne
  unfold summary VariantRun.line
  cases htimes : run.times entry with
  | nil => exact absurd htimes hne
  | cons first rest =>
    rw [htimes] at hmedian
    rw [hmedian]
    rfl

theorem variantSummaries_table (hmillion : run.config.iterations.toNat = 1000000)
    (hten : run.config.repetitions.toNat = 10) :
    variantSummaries run.variant = .ok (plan.map run.line) := by
  refine bind_eq_ok.mpr ⟨_, acceptedGroups_table run hmillion hten, ?_⟩
  rw [List.mapM_map]
  exact mapM_ok fun entry hentry => summary_line hentry

variable {items : List Summary}

theorem ordered_some {a b : Option Bytes} (ha : a.isSome) (hb : b.isSome) :
    ordered a b = true := by
  simp [ordered, ha, hb]

theorem all_ordered {α : Type} {text : α → Option Bytes} {values : List α}
    (h : ∀ value ∈ values, (text value).isSome) :
    (values.all fun a => values.all fun b => ordered (text a) (text b)) = true := by
  rw [List.all_eq_true]
  intro a ha
  rw [List.all_eq_true]
  exact fun b hb => ordered_some (h a ha) (h b hb)

theorem sortedTexts_ok {texts : List (Option Bytes)} (h : ∀ text ∈ texts, text.isSome) :
    ∃ sorted, sortedTexts texts = .ok sorted := by
  unfold sortedTexts
  rw [if_pos (all_ordered h)]
  exact ⟨_, rfl⟩

theorem fastestLine_ok (hmeans : ∀ item ∈ items, item.mean ≠ 0) {item : Summary}
    (hitem : item ∈ items) :
    ∃ line, fastestLine items item.variant item.key.testCase = .ok line := by
  have hkept : item ∈ items.filter fun row =>
      row.variant = item.variant ∧ row.key.testCase = item.key.testCase :=
    List.mem_filter.mpr ⟨hitem, decide_eq_true ⟨rfl, rfl⟩⟩
  cases hbest : best items item.variant item.key.testCase with
  | none =>
    rw [best, List.argmin_eq_none] at hbest
    rw [hbest] at hkept
    cases hkept
  | some row =>
    have hmean := hmeans row (best_mem hbest).1
    refine ⟨{ variant := item.variant, testCase := item.key.testCase, best := row.key
              median := row.median, mps := 1000 / row.mean }, ?_⟩
    have hmps : throughput row = .ok (1000 / row.mean) := if_neg hmean
    unfold fastestLine
    rw [hbest]
    exact bind_eq_ok.mpr ⟨_, hmps, rfl⟩

/-- The table of the fastest rows, where every row has a payload and took some time. -/
theorem fastestLines_ok (hcases : ∀ item ∈ items, item.key.testCase.isSome)
    (hmeans : ∀ item ∈ items, item.mean ≠ 0) : ∃ lines, fastestLines items = .ok lines := by
  have hvariant : ∀ name ∈ (items.map Summary.variant).dedup.insertionSort (· ≤ ·),
      ∃ lines, (sortedTexts ((items.filter fun row => row.variant = name).map
        fun row => row.key.testCase) >>= fun cases =>
          cases.mapM (fastestLine items name)) = .ok lines := by
    intro name _
    obtain ⟨sorted, hsorted⟩ := @sortedTexts_ok ((items.filter fun row => row.variant = name).map
      fun row => row.key.testCase) (by
        intro text htext
        obtain ⟨item, hitem, rfl⟩ := List.mem_map.mp htext
        exact hcases item (List.mem_of_mem_filter hitem))
    have heach : ∀ text ∈ sorted, ∃ line, fastestLine items name text = .ok line := by
      intro text htext
      rw [mem_sortedTexts hsorted] at htext
      obtain ⟨item, hitem, rfl⟩ := List.mem_map.mp htext
      obtain ⟨hmem, hname⟩ := List.mem_filter.mp hitem
      obtain rfl := of_decide_eq_true hname
      exact fastestLine_ok hmeans hmem
    obtain ⟨lines, hlines⟩ := exists_mapM_ok heach
    exact ⟨lines, bind_eq_ok.mpr ⟨sorted, hsorted, hlines⟩⟩
  obtain ⟨blocks, hblocks⟩ := exists_mapM_ok hvariant
  exact ⟨_, bind_eq_ok.mpr ⟨blocks, hblocks, rfl⟩⟩

theorem sortedSummaries_ok (hcases : ∀ item ∈ items, item.key.testCase.isSome) :
    ∃ rows, sortedSummaries items = .ok rows := by
  have hall : (items.all fun a => items.all fun b =>
      ordered a.key.testCase b.key.testCase) = true := all_ordered hcases
  unfold sortedSummaries
  rw [if_pos hall]
  exact ⟨_, rfl⟩

theorem sortedSummaries_perm {rows : List Summary} (h : sortedSummaries items = .ok rows) :
    rows.Perm items := by
  unfold sortedSummaries at h
  split at h
  · obtain rfl := Except.ok.inj h
    exact List.perm_insertionSort _ _
  · cases h

end Lines

section Report

/-- A run as the report finds it in its directory. -/
def VariantRun.readVariant (run : VariantRun) : Option Variant :=
  (readTable run.csv).map fun raw => { name := run.name, raw, metadata := run.metadata }

variable {runs : List VariantRun}

theorem readVariants (runs : List VariantRun) :
    runs.mapM VariantRun.readVariant = some (runs.map VariantRun.variant) := by
  refine mapM_some fun run _ => ?_
  rw [VariantRun.readVariant, run.readTable_csv]
  rfl

/-- All lines of a report on the runs. -/
def lines (runs : List VariantRun) : List Summary := runs.flatMap fun run => plan.map run.line

theorem mem_lines {item : Summary} :
    item ∈ lines runs ↔ ∃ run ∈ runs, ∃ entry ∈ plan, run.line entry = item := by
  simp only [lines, List.mem_flatMap, List.mem_map]

theorem summaries_ok (h : ∀ run ∈ runs, run.config.iterations.toNat = 1000000 ∧
    run.config.repetitions.toNat = 10) :
    (runs.map VariantRun.variant).mapM variantSummaries =
      .ok (runs.map fun run => plan.map run.line) := by
  rw [List.mapM_map]
  exact mapM_ok fun run hrun => variantSummaries_table (h run hrun).1 (h run hrun).2

/-- The report is written for runs of the expected counts only. -/
theorem compilerReport_runs_iff :
    (∃ report, compilerReport (runs.map VariantRun.variant) = .ok report) ↔
      runs ≠ [] ∧ ∀ run ∈ runs, run.config.iterations.toNat = 1000000 ∧
        run.config.repetitions.toNat = 10 := by
  constructor
  · rintro ⟨report, hreport⟩
    constructor
    · rintro rfl
      cases hreport
    · intro run hrun
      obtain ⟨groups, hgroups⟩ := compilerReport_accepts hreport _ (List.mem_map_of_mem hrun)
      exact counts_of_accepted run hgroups
  · rintro ⟨hne, hcounts⟩
    have hcases : ∀ item ∈ lines runs, item.key.testCase.isSome := by
      intro item hitem
      obtain ⟨run, -, entry, -, rfl⟩ := mem_lines.mp hitem
      rw [run.line_testCase]
      rfl
    have hmeans : ∀ item ∈ lines runs, item.mean ≠ 0 := by
      intro item hitem
      obtain ⟨run, -, entry, hentry, rfl⟩ := mem_lines.mp hitem
      exact (run.mean_pos hentry).ne'
    obtain ⟨fastest, hfastest⟩ := fastestLines_ok hcases hmeans
    obtain ⟨rows, hrows⟩ := sortedSummaries_ok hcases
    rw [lines, List.flatMap_def] at hfastest hrows
    have hvariants : runs.map VariantRun.variant ≠ [] := List.map_eq_nil_iff.not.mpr hne
    exact ⟨_, bind_eq_ok.mpr ⟨_, summaries_ok hcounts, guard_eq_ok.mpr ⟨hvariants,
      bind_eq_ok.mpr ⟨fastest, hfastest, bind_eq_ok.mpr ⟨rows, hrows, rfl⟩⟩⟩⟩⟩

/-- What a written report contains. -/
theorem compilerReport_lines {report : Report}
    (h : compilerReport (runs.map VariantRun.variant) = .ok report) :
    report.rows.Perm (lines runs) ∧ fastestLines (lines runs) = .ok report.fastest := by
  have hcounts := (compilerReport_runs_iff.mp ⟨report, h⟩).2
  obtain ⟨summaries, hsummaries, h⟩ := bind_eq_ok.mp h
  rw [summaries_ok hcounts] at hsummaries
  obtain rfl := Except.ok.inj hsummaries
  rw [← List.flatMap_def] at h
  obtain ⟨-, h⟩ := guard_eq_ok.mp h
  obtain ⟨fastest, hfastest, h⟩ := bind_eq_ok.mp h
  obtain ⟨rows, hrows, h⟩ := bind_eq_ok.mp h
  obtain rfl := Except.ok.inj h
  exact ⟨sortedSummaries_perm hrows, hfastest⟩

/-- The fastest line of a variant's payload shows a line that no other has a smaller median than. -/
structure Fastest (runs : List VariantRun) (line : Summary) (shown : FastestLine) : Prop where
  variant : shown.variant = line.variant
  testCase : shown.testCase = line.key.testCase
  chosen : ∃ run ∈ runs, ∃ entry ∈ plan, (run.line entry).variant = line.variant ∧
    (run.line entry).key.testCase = line.key.testCase ∧ shown.best = (run.line entry).key ∧
    shown.median = (run.line entry).median ∧ shown.mps = 1000 / (run.line entry).mean
  least : ∀ run ∈ runs, ∀ entry ∈ plan, (run.line entry).variant = line.variant →
    (run.line entry).key.testCase = line.key.testCase → shown.median ≤ (run.line entry).median

/-- From the runs of the encoding benchmark to the comparison of compilers: the tables are read
back, the report is written exactly if every run had a million iterations and ten repetitions, and
it has a line for each configuration of each run, with the statistics of its own times, and the
least of the medians for each payload. -/
theorem compiler_reported (runs : List VariantRun) :
    ∃ variants, runs.mapM VariantRun.readVariant = some variants ∧
      ((∃ report, compilerReport variants = .ok report) ↔
        runs ≠ [] ∧ ∀ run ∈ runs, run.config.iterations.toNat = 1000000 ∧
          run.config.repetitions.toNat = 10) ∧
      ∀ report, compilerReport variants = .ok report →
        report.rows.Perm (runs.flatMap fun run => plan.map run.line) ∧
        ∀ run ∈ runs, ∀ entry ∈ plan, ∃ shown ∈ report.fastest,
          Fastest runs (run.line entry) shown := by
  refine ⟨runs.map VariantRun.variant, readVariants runs, compilerReport_runs_iff, ?_⟩
  intro report hreport
  obtain ⟨hrows, hfastest⟩ := compilerReport_lines hreport
  refine ⟨hrows, fun run hrun entry hentry => ?_⟩
  have hmem : run.line entry ∈ lines runs := mem_lines.mpr ⟨run, hrun, entry, hentry, rfl⟩
  obtain ⟨shown, hshown, hline⟩ := (fastestLines_eq_ok hfastest).2 _ hmem
  obtain ⟨hvariant, htestCase, item, hbest, hkey, hmedian, hmps⟩ := fastestLine_eq_ok hline
  obtain ⟨hitem, hsame⟩ := List.mem_filter.mp (List.argmin_mem hbest)
  obtain ⟨hname, hcase⟩ := of_decide_eq_true hsame
  obtain ⟨other, hother, best, hplan, rfl⟩ := mem_lines.mp hitem
  refine ⟨shown, hshown, { variant := hvariant, testCase := htestCase, chosen := ?_, least := ?_ }⟩
  · exact ⟨other, hother, best, hplan, hname, hcase, hkey, hmedian, hmps⟩
  · intro rival hrival candidate hcandidate hrivalName hrivalCase
    rw [hmedian]
    refine List.le_of_mem_argmin (List.mem_filter.mpr ⟨?_, ?_⟩) hbest
    · exact mem_lines.mpr ⟨rival, hrival, candidate, hcandidate, rfl⟩
    · exact decide_eq_true ⟨hrivalName, hrivalCase⟩

/-- A clock that only the encoders move, by 150 ns a call. -/
def steadyPlatform : Platform ℤ where
  now time := (time, time)
  encode _ time := (41, time + 150)
  byteSize _ := 41

theorem calls_steady (entry : Entry) (count : ℕ) (time : ℤ) :
    (calls (steadyPlatform.encode entry) count time).2 = time + 150 * count := by
  induction count generalizing time with
  | zero => exact (Int.add_zero time).symm
  | succ count ih =>
    change (calls (steadyPlatform.encode entry) count (time + 150)).2 = _
    rw [ih]
    push_cast
    ring

/-- Every row shows the 150 ns. -/
theorem measureRound_steady {config : EncodeBenchmark.Config} (hpos : 0 < config.iterations.toNat)
    (entry : Entry) (repetition : BitVec 32) (state : BenchState ℤ) :
    ∃ row, (measureRound config (steadyPlatform.measurement entry) repetition state).rows =
      state.rows ++ [row] ∧ row.nsPerEncode = 150 := by
  refine ⟨_, rfl, ?_⟩
  have hworld := (rounds_encodeCall (steadyPlatform.measurement entry) config.iterations.toNat 0
    ⟨state.world, (steadyPlatform.measurement entry).bytesHint, 0⟩).1
  rw [← forBelow_zero] at hworld
  have hstop := hworld.trans (calls_steady entry config.iterations.toNat state.world)
  have helapsed : (forBelow (fun _ => encodeCall (steadyPlatform.measurement entry))
      config.iterations 0 ⟨state.world, (steadyPlatform.measurement entry).bytesHint, 0⟩).world -
        state.world = 150 * config.iterations.toNat := by
    rw [hstop]
    ring
  have hne : (config.iterations.toNat : ℚ) ≠ 0 := Nat.cast_ne_zero.mpr hpos.ne'
  refine (congrArg (fun elapsed : ℤ => (elapsed : ℚ) / config.iterations.toNat) helapsed).trans ?_
  push_cast
  exact mul_div_cancel_right₀ _ hne

/-- A run with the counts that `parse_args` starts with, on a machine that takes 150 ns a call. -/
theorem exists_variantRun : ∃ run : VariantRun,
    run.config.iterations.toNat = 1000000 ∧ run.config.repetitions.toNat = 10 ∧
      ∀ row ∈ run.rows, run.time row = 150 := by
  obtain ⟨config, hparsed, hmillion, hten⟩ : ∃ config, EncodeBenchmark.parseArgs [] = .ok config ∧
      config.iterations.toNat = 1000000 ∧ config.repetitions.toNat = 10 := ⟨_, rfl, rfl, rfl⟩
  have hbound : config.repetitions ≠ BitVec.allOnes 32 := by
    intro heq
    rw [heq] at hten
    cases hten
  have hread : pyFloat (Printer.fixed.print 150) = some 150 := by decide +kernel
  obtain ⟨fuel, ⟨world, rows⟩, hreturned⟩ :=
    @exists_runPlan ℤ steadyPlatform config hbound { world := 0, rows := [] }
  have hrows : ∀ row ∈ rows, row.nsPerEncode = 150 :=
    runPlan_forall (measureRound_steady (by omega)) hreturned fun _ h => absurd h List.not_mem_nil
  have htimes : ∀ row ∈ rows, pyFloat (Printer.fixed.print row.nsPerEncode) = some 150 := by
    intro row hrow
    rw [hrows row hrow, hread]
  let run : VariantRun :=
    { name := ascii "gcc", metadata := [], args := [], config, parsed := hparsed
      printer := Printer.fixed, rows
      returned := ⟨ℤ, steadyPlatform, fuel, 0, world, hreturned⟩
      measured := fun row hrow => ⟨150, htimes row hrow, by norm_num⟩ }
  refine ⟨run, hmillion, hten, fun row hrow => ?_⟩
  rw [VariantRun.time, htimes row hrow]
  rfl

/-- A report of 36 lines with the mean of 150 ns. -/
theorem compiler_reported_one : ∃ (run : VariantRun) (variants : List Variant) (report : Report),
    [run].mapM VariantRun.readVariant = some variants ∧ compilerReport variants = .ok report ∧
      report.rows.length = 36 ∧ ∀ line ∈ report.rows, line.mean = 150 := by
  obtain ⟨run, hmillion, hten, htimes⟩ := exists_variantRun
  obtain ⟨variants, hread, hwritten, hlines⟩ := compiler_reported [run]
  obtain ⟨report, hreport⟩ := hwritten.mpr
    ⟨List.cons_ne_nil _ _, List.forall_mem_singleton.mpr ⟨hmillion, hten⟩⟩
  have hperm := (hlines report hreport).1
  rw [List.flatMap_singleton] at hperm
  refine ⟨run, variants, report, hread, hreport, ?_, ?_⟩
  · rw [hperm.length_eq, List.length_map, plan_length]
  · intro line hline
    obtain ⟨entry, hentry, rfl⟩ := List.mem_map.mp (hperm.mem_iff.mp hline)
    have hconstant : run.times entry = List.replicate (run.times entry).length 150 := by
      refine List.eq_replicate_length.mpr fun ns hns => ?_
      obtain ⟨row, hrow, rfl⟩ := List.mem_map.mp hns
      exact htimes row (List.mem_of_mem_filter hrow)
    have hlength : ((run.times entry).length : ℚ) ≠ 0 :=
      Nat.cast_ne_zero.mpr (List.length_pos_iff.mpr (run.times_ne_nil hentry)).ne'
    have hsum : (run.times entry).sum = (run.times entry).length * 150 := by
      conv_lhs => rw [hconstant]
      rw [List.sum_replicate, nsmul_eq_mul]
    rw [VariantRun.line, hsum]
    exact mul_div_cancel_left₀ _ hlength

end Report

end ProtobufKafkaBench.CompilerReport

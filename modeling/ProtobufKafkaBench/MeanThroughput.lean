import ProtobufKafkaBench.EncodingReports

/-!
The cells headed `Mean M/s`. Two reports divide by the mean time, and so print the
encodes of a group over its time. Three reports take the mean of the rates, which
is larger unless all repetitions took the same time.
-/
namespace ProtobufKafkaBench.EncodingReports

open AsyncReports ByteBuffers CompilerReport CsvTables Exceptions Grouping Means
open KafkaReports (readMetadata)

section Groups

variable {rows : List DictRow}

def iterationsOf (row : DictRow) : ℤ := (row.intItem (ascii "iterations")).toOption.getD 0

def encodesPerSecond (row : DictRow) : ℚ :=
  (row.floatItem (ascii "encodes_per_second")).toOption.getD 0

/-- Repetitions of one number of iterations, each of which took some time. -/
structure Repetitions (rows : List DictRow) : Prop where
  iterations : ∃ n : ℤ, 0 < n ∧ ∀ row ∈ rows, row.intItem (ascii "iterations") = .ok n
  positive : ∀ row ∈ rows, 0 < nsPerEncode row

/-- The rate column is the inverse of the time column. -/
def RatesInverse (rows : List DictRow) : Prop :=
  ∀ row ∈ rows, row.floatItem (ascii "encodes_per_second") = .ok (1000000000 / nsPerEncode row)

def totalEncodes (rows : List DictRow) : ℤ := (rows.map iterationsOf).sum

/-- In nanoseconds. -/
def totalElapsed (rows : List DictRow) : ℚ :=
  (rows.map fun row => iterationsOf row * nsPerEncode row).sum

/-- All encodes over all time, in millions per second. -/
def totalThroughput (rows : List DictRow) : ℚ :=
  totalEncodes rows / (totalElapsed rows / 1000000000) / 1000000

/-- The mean of the rates of the repetitions, in millions per second. -/
def meanRate (rows : List DictRow) : ℚ :=
  ((rows.map nsPerEncode).map (1000 / ·)).sum / rows.length

theorem totalThroughput_eq (h : Repetitions rows) (hne : rows ≠ []) :
    totalThroughput rows = 1000 / ((rows.map nsPerEncode).sum / rows.length) := by
  obtain ⟨n, hn, hrows⟩ := h.iterations
  have hiterations : ∀ row ∈ rows, iterationsOf row = n := by
    intro row hrow
    rw [iterationsOf, hrows row hrow]
    rfl
  have hencodes : totalEncodes rows = rows.length * n := by
    rw [totalEncodes, List.map_congr_left hiterations, List.map_const', List.sum_replicate,
      nsmul_eq_mul]
  have helapsed : totalElapsed rows = n * (rows.map nsPerEncode).sum := by
    have hcongr : rows.map (fun row => (iterationsOf row : ℚ) * nsPerEncode row) =
        rows.map fun row => n * nsPerEncode row := by
      apply List.map_congr_left
      intro row hrow
      rw [hiterations row hrow]
    rw [totalElapsed, hcongr, List.sum_map_mul_left]
  have hcount : (n : ℚ) ≠ 0 := by exact_mod_cast hn.ne'
  have hsum : (rows.map nsPerEncode).sum ≠ 0 := by
    apply (List.sum_pos _ ?_ ?_).ne'
    · intro ns hns
      obtain ⟨row, hrow, rfl⟩ := List.mem_map.mp hns
      exact h.positive row hrow
    · exact List.map_eq_nil_iff.not.mpr hne
  rw [totalThroughput, hencodes, helapsed, Int.cast_mul, Int.cast_natCast]
  field_simp
  ring

/-- The mean of the rates is at least the throughput, and more for unequal times. -/
theorem meanRate_bounds (h : Repetitions rows) (hne : rows ≠ []) :
    totalThroughput rows ≤ meanRate rows ∧
      (meanRate rows = totalThroughput rows ↔
        ∀ row ∈ rows, ∀ row' ∈ rows, nsPerEncode row = nsPerEncode row') := by
  have htimes : rows.map nsPerEncode ≠ [] := List.map_eq_nil_iff.not.mpr hne
  have hpositive : ∀ ns ∈ rows.map nsPerEncode, 0 < ns := by
    intro ns hns
    obtain ⟨row, hrow, rfl⟩ := List.mem_map.mp hns
    exact h.positive row hrow
  have hthousand : (0 : ℚ) < 1000 := by norm_num
  have hlower := rate_of_mean_le htimes hpositive hthousand.le
  have hequal := mean_rates_eq_iff htimes hpositive hthousand
  rw [List.length_map] at hlower hequal
  rw [totalThroughput_eq h hne, meanRate]
  refine ⟨hlower, hequal.trans ?_⟩
  simp only [List.forall_mem_map]

end Groups

section Cells

theorem statistic_eq_ok {value : Option ℚ} {result : ℚ} (h : statistic value = .ok result) :
    value = some result := by
  cases value with
  | none => cases h
  | some value => exact congrArg some (Except.ok.inj h)

theorem divide_eq_ok {a b result : ℚ} (h : divide a b = .ok result) : result = a / b :=
  (Except.ok.inj (guard_eq_ok.mp h).2).symm

theorem floats_eq_ok {rows : List DictRow} {samples : List ℚ}
    (h : floats rows (ascii "ns_per_encode") = .ok samples) : samples = rows.map nsPerEncode := by
  apply eq_map_of_mapM _ h
  intro row ns hns
  rw [nsPerEncode, hns]
  rfl

theorem rates_eq_ok {samples rates : List ℚ} (h : samples.mapM ConcurrencyReport.rate = .ok rates) :
    rates = samples.map (1000 / ·) := by
  apply eq_map_of_mapM _ h
  intro ns rate hrate
  obtain ⟨quotient, hquotient, heq⟩ := bind_eq_ok.mp hrate
  obtain rfl := Except.ok.inj heq
  rw [divide_eq_ok hquotient]
  ring

/-- The throughput cell of a group whose times are divided by their number first. -/
def meanTimeRate (rows : List DictRow) : ℚ :=
  1000 / ((rows.map nsPerEncode).sum / rows.length)

theorem mean_time_eq {rows : List DictRow} {samples : List ℚ} {mean : ℚ}
    (hsamples : floats rows (ascii "ns_per_encode") = .ok samples)
    (hmean : statistic (Means.mean samples) = .ok mean) : 1000 / mean = meanTimeRate rows := by
  obtain ⟨-, hvalue⟩ := mean_eq_some (statistic_eq_ok hmean)
  rw [hvalue, floats_eq_ok hsamples, meanTimeRate, List.length_map]

theorem mean_rate_eq {rows : List DictRow} {samples rates : List ℚ} {mps : ℚ}
    (hsamples : floats rows (ascii "ns_per_encode") = .ok samples)
    (hrates : samples.mapM ConcurrencyReport.rate = .ok rates)
    (hmps : statistic (Means.mean rates) = .ok mps) : mps = meanRate rows := by
  obtain ⟨-, hvalue⟩ := mean_eq_some (statistic_eq_ok hmps)
  rw [hvalue, rates_eq_ok hrates, floats_eq_ok hsamples, meanRate, List.length_map,
    List.length_map]

theorem RepresentationReport.line_eq_ok {group : Option Bytes × List DictRow} {result : Line}
    (h : line group = .ok result) :
    result.representation = group.1 ∧ result.mps = meanTimeRate group.2 := by
  obtain ⟨samples, hsamples, h⟩ := bind_eq_ok.mp h
  obtain ⟨mean, hmean, h⟩ := bind_eq_ok.mp h
  obtain ⟨bytes, -, h⟩ := bind_eq_ok.mp h
  obtain ⟨median, -, h⟩ := bind_eq_ok.mp h
  obtain ⟨p95, -, h⟩ := bind_eq_ok.mp h
  obtain ⟨p99, -, h⟩ := bind_eq_ok.mp h
  obtain ⟨p99_9, -, h⟩ := bind_eq_ok.mp h
  obtain ⟨p99_99, -, h⟩ := bind_eq_ok.mp h
  obtain ⟨quotient, hquotient, h⟩ := bind_eq_ok.mp h
  obtain rfl := Except.ok.inj h
  refine ⟨rfl, ?_⟩
  rw [divide_eq_ok hquotient, ← mean_time_eq hsamples hmean]
  ring

theorem RegistryReport.steadySummary_mps {rows : List DictRow} {result : SteadySummary}
    (h : steadySummary rows = .ok result) : result.mps = 1000000 * meanTimeRate rows := by
  obtain ⟨values, hvalues, h⟩ := bind_eq_ok.mp h
  obtain ⟨bytes, -, h⟩ := bind_eq_ok.mp h
  obtain ⟨median, -, h⟩ := bind_eq_ok.mp h
  obtain ⟨mean, hmean, h⟩ := bind_eq_ok.mp h
  obtain ⟨p95, -, h⟩ := bind_eq_ok.mp h
  obtain ⟨mps, hmps, h⟩ := bind_eq_ok.mp h
  obtain rfl := Except.ok.inj h
  rw [divide_eq_ok hmps, ← mean_time_eq hvalues hmean]
  ring

theorem ConcurrencyReport.line_eq_ok {group : ModeKey × List DictRow} {result : Line}
    (h : line group = .ok result) :
    result.key = group.1 ∧ result.mps = meanRate group.2 := by
  obtain ⟨samples, hsamples, h⟩ := bind_eq_ok.mp h
  obtain ⟨bytes, -, h⟩ := bind_eq_ok.mp h
  obtain ⟨median, -, h⟩ := bind_eq_ok.mp h
  obtain ⟨mean, -, h⟩ := bind_eq_ok.mp h
  obtain ⟨rates, hrates, h⟩ := bind_eq_ok.mp h
  obtain ⟨mps, hmps, h⟩ := bind_eq_ok.mp h
  obtain rfl := Except.ok.inj h
  exact ⟨rfl, mean_rate_eq hsamples hrates hmps⟩

theorem DistributionReport.line_eq_ok {group : Option Bytes × List DictRow} {result : Line}
    (h : line group = .ok result) :
    result.distribution = group.1 ∧ result.mps = meanRate group.2 := by
  obtain ⟨samples, hsamples, h⟩ := bind_eq_ok.mp h
  obtain ⟨sizes, -, h⟩ := bind_eq_ok.mp h
  obtain ⟨meanBytes, -, h⟩ := bind_eq_ok.mp h
  obtain ⟨median, -, h⟩ := bind_eq_ok.mp h
  obtain ⟨mean, -, h⟩ := bind_eq_ok.mp h
  obtain ⟨rates, hrates, h⟩ := bind_eq_ok.mp h
  obtain ⟨mps, hmps, h⟩ := bind_eq_ok.mp h
  obtain rfl := Except.ok.inj h
  exact ⟨rfl, mean_rate_eq hsamples hrates hmps⟩

/-- What the loop of the encoding report makes of a row. -/
def Report.measured (row : DictRow) : MeasuredRow where
  row := row
  ns := nsPerEncode row
  mps := encodesPerSecond row / 1000000

theorem Report.measuredRow_eq_ok {row : DictRow} {entry : ConfigKey × MeasuredRow}
    (h : measuredRow row = .ok entry) : (configuration row, measured row) = entry := by
  obtain ⟨ns, hns, h⟩ := bind_eq_ok.mp h
  obtain ⟨rate, hrate, h⟩ := bind_eq_ok.mp h
  obtain ⟨key, hkey, h⟩ := bind_eq_ok.mp h
  obtain rfl := Except.ok.inj h
  rw [configKey_eq_ok hkey, measured, nsPerEncode, hns, encodesPerSecond, hrate]
  rfl

theorem Report.summary_eq_ok {key : ConfigKey} {rows : List DictRow} {result : Summary}
    (h : summary (key, rows.map measured) = .ok result) :
    result.key = key ∧ Medians.median (rows.map nsPerEncode) = some result.medianNs ∧
      (RatesInverse rows → result.meanMps = meanRate rows) := by
  obtain ⟨bytes, -, h⟩ := bind_eq_ok.mp h
  obtain ⟨meanNs, -, h⟩ := bind_eq_ok.mp h
  obtain ⟨medianNs, hmedian, h⟩ := bind_eq_ok.mp h
  obtain ⟨minNs, -, h⟩ := bind_eq_ok.mp h
  obtain ⟨maxNs, -, h⟩ := bind_eq_ok.mp h
  obtain ⟨meanMps, hmean, h⟩ := bind_eq_ok.mp h
  obtain rfl := Except.ok.inj h
  have hns : (rows.map measured).map MeasuredRow.ns = rows.map nsPerEncode := List.map_map
  refine ⟨rfl, hns ▸ statistic_eq_ok hmedian, ?_⟩
  intro hrates
  obtain ⟨-, hvalue⟩ := mean_eq_some (statistic_eq_ok hmean)
  have hmps : (rows.map measured).map MeasuredRow.mps =
      (rows.map nsPerEncode).map (1000 / ·) := by
    rw [List.map_map, List.map_map]
    apply List.map_congr_left
    intro row hrow
    simp only [Function.comp_apply, measured, encodesPerSecond, hrates row hrow]
    change 1000000000 / nsPerEncode row / 1000000 = _
    ring
  rw [hmps, List.length_map, List.length_map] at hvalue
  exact hvalue

/-- The summary of a compiler's group. -/
theorem summary_eq_ok {variant : Variant} {group : ConfigKey × List DictRow}
    {result : CompilerReport.Summary}
    (h : CompilerReport.summary variant (group.1, group.2.map nsPerEncode) = .ok result) :
    result.key = group.1 ∧ Medians.median (group.2.map nsPerEncode) = some result.median ∧
      1000 / result.mean = meanTimeRate group.2 := by
  obtain ⟨median, hmedian, h⟩ := bind_eq_ok.mp h
  obtain ⟨mean, hmean, h⟩ := bind_eq_ok.mp h
  obtain rfl := Except.ok.inj h
  refine ⟨rfl, statistic_eq_ok hmedian, ?_⟩
  obtain ⟨-, hvalue⟩ := mean_eq_some (statistic_eq_ok hmean)
  rw [hvalue, meanTimeRate, List.length_map]

end Cells

section Reports

theorem sortedBy_perm {α κ : Type} {le : κ → κ → Bool} {key : α → Except PyError κ}
    {items sorted : List α} (h : sortedBy le key items = .ok sorted) : sorted.Perm items := by
  obtain ⟨keyed, hkeyed, h⟩ := bind_eq_ok.mp h
  obtain rfl := Except.ok.inj h
  have hitems : keyed.map Prod.snd = items.map id := by
    apply map_eq_map_of_mapM _ hkeyed
    intro item entry hentry
    obtain ⟨k, -, heq⟩ := bind_eq_ok.mp hentry
    exact congrArg Prod.snd (Except.ok.inj heq).symm
  rw [List.map_id] at hitems
  rw [← hitems]
  exact (List.perm_insertionSort _ keyed).map Prod.snd

/-- Lines for the keys of the rows, one for each. -/
structure LinesOf {κ : Type} (keys : List κ) (key : DictRow → κ) (rows : List DictRow) : Prop where
  nodup : keys.Nodup
  mem_iff : ∀ k, k ∈ keys ↔ ∃ row ∈ rows, key row = k

/-- A table with a line for each group has the lines of the rows, wherever the sorting has put
them, and each line is that of all rows of its key, of which there are some. -/
structure GroupLines {κ β : Type} [DecidableEq κ] (key : DictRow → κ) (rows : List DictRow)
    (line : κ × List DictRow → Except PyError β) (keyOf : β → κ) (lines : List β) : Prop where
  lines_of : LinesOf (lines.map keyOf) key rows
  line_eq : ∀ result ∈ lines, line (keyOf result, withKey key rows (keyOf result)) = .ok result
  nonempty : ∀ result ∈ lines, withKey key rows (keyOf result) ≠ []

theorem groupLines {κ β : Type} [DecidableEq κ] {key : DictRow → κ} {rows : List DictRow}
    {line : κ × List DictRow → Except PyError β} {keyOf : β → κ} {lines : List β}
    {sorted : List (κ × List DictRow)} (hperm : sorted.Perm (groupRows key rows))
    (hlines : sorted.mapM line = .ok lines)
    (hkey : ∀ group result, line group = .ok result → keyOf result = group.1) :
    GroupLines key rows line keyOf lines := by
  have hkeys : (lines.map keyOf).Perm ((groupRows key rows).map Prod.fst) := by
    rw [map_eq_map_of_mapM hkey hlines]
    exact hperm.map Prod.fst
  have hgroup : ∀ result ∈ lines, ∃ group ∈ groupRows key rows, line group = .ok result ∧
      keyOf result = group.1 ∧ withKey key rows (keyOf result) = group.2 := by
    intro result hresult
    obtain ⟨group, hgroup, hline⟩ := exists_value_of_mapM hlines hresult
    have hmem := hperm.mem_iff.mp hgroup
    have hfirst := hkey group result hline
    refine ⟨group, hmem, hline, hfirst, ?_⟩
    rw [hfirst, groupRows_values key rows group hmem, withKey]
  refine { lines_of := { nodup := ?_, mem_iff := ?_ }, line_eq := ?_, nonempty := ?_ }
  · exact hkeys.nodup_iff.mpr (groupRows_nodup key rows)
  · intro k
    rw [hkeys.mem_iff, mem_keys_groupRows, List.mem_map]
  · intro result hresult
    obtain ⟨group, -, hline, hfirst, hrows⟩ := hgroup result hresult
    rw [hrows, hfirst]
    exact hline
  · intro result hresult
    obtain ⟨group, hmem, -, -, hrows⟩ := hgroup result hresult
    rw [hrows]
    exact groupRows_ne_nil key rows group hmem

def textOf (name : Bytes) (row : DictRow) : Option Bytes := (row.lookup name).getD none

theorem textOf_eq_ok {name : Bytes} (row : DictRow) (text : Option Bytes)
    (h : row.item name = .ok text) : textOf name row = text := by
  rw [textOf, DictRow.lookup_of_item h]
  rfl

/-- Sorted groups of the texts of a column, with their lines. -/
theorem sortedGroupLines {β κ : Type} {name : Bytes} {rows : List DictRow}
    {groups sorted : List (Option Bytes × List DictRow)} {le : κ → κ → Bool}
    {key : Option Bytes × List DictRow → Except PyError κ} {keyOf : β → Option Bytes}
    {line : Option Bytes × List DictRow → Except PyError β} {lines : List β}
    (hgroups : groupRowsM (fun row => row.item name) rows = .ok groups)
    (hsorted : sortedBy le key groups = .ok sorted) (hlines : sorted.mapM line = .ok lines)
    (hkey : ∀ group result, line group = .ok result → keyOf result = group.1) :
    GroupLines (textOf name) rows line keyOf lines := by
  refine groupLines ?_ hlines hkey
  rw [groupRows_of_groupRowsM textOf_eq_ok hgroups]
  exact sortedBy_perm hsorted

/-- `(row["api"], row["test_case"])`, where a missing column counts as `None`. -/
def RegistryReport.pathOf (row : DictRow) : PathKey where
  api := textOf (ascii "api") row
  testCase := textOf (ascii "test_case") row

theorem RegistryReport.pathKey_eq_ok (row : DictRow) (key : PathKey) (h : pathKey row = .ok key) :
    pathOf row = key := by
  obtain ⟨api, hapi, h⟩ := bind_eq_ok.mp h
  obtain ⟨testCase, htest, h⟩ := bind_eq_ok.mp h
  obtain rfl := Except.ok.inj h
  rw [pathOf, textOf_eq_ok row api hapi, textOf_eq_ok row testCase htest]

/-- The registry report prints encodes per second in this place, not millions of them. -/
theorem RegistryReport.cachedPaths_mps {csv : CsvFile} {lines : List (PathKey × SteadySummary)}
    (h : cachedPaths csv = .ok lines) : ∃ rows, steadyRows csv.rows = .ok rows ∧
      ∀ line ∈ lines, line.2.mps = 1000000 * meanTimeRate (withKey pathOf rows line.1) := by
  obtain ⟨rows, hrows, h⟩ := bind_eq_ok.mp h
  obtain ⟨groups, hgroups, h⟩ := bind_eq_ok.mp h
  obtain ⟨keyed, hkeyed, h⟩ := bind_eq_ok.mp h
  have hsame := groupRows_of_groupRowsM pathKey_eq_ok hgroups
  refine ⟨rows, hrows, fun line hline => ?_⟩
  have hmem : line ∈ keyed := by
    split at h
    · exact (sortedBy_perm h).mem_iff.mp hline
    · cases h
  obtain ⟨group, hgroup, hentry⟩ := exists_value_of_mapM hkeyed hmem
  obtain ⟨summary, hsummary, heq⟩ := bind_eq_ok.mp hentry
  obtain rfl := Except.ok.inj heq
  rw [← hsame] at hgroup
  have hvalues : group.2 = withKey pathOf rows group.1 := groupRows_values pathOf rows group hgroup
  change summary.mps = 1000000 * meanTimeRate (withKey pathOf rows group.1)
  rw [← hvalues]
  exact steadySummary_mps hsummary

theorem RepresentationReport.report_eq_ok {csv : CsvFile} {lines : List Line}
    (h : report csv = .ok lines) :
    GroupLines (textOf (ascii "representation")) csv.rows line Line.representation lines := by
  obtain ⟨groups, hgroups, h⟩ := bind_eq_ok.mp h
  obtain ⟨sorted, hsorted, hlines⟩ := bind_eq_ok.mp h
  exact sortedGroupLines hgroups hsorted hlines fun _ _ hline => (line_eq_ok hline).1

theorem DistributionReport.report_eq_ok {csv : CsvFile} {lines : List Line}
    (h : report csv = .ok lines) :
    GroupLines (textOf (ascii "distribution")) csv.rows line Line.distribution lines := by
  obtain ⟨groups, hgroups, h⟩ := bind_eq_ok.mp h
  obtain ⟨sorted, hsorted, hlines⟩ := bind_eq_ok.mp h
  exact sortedGroupLines hgroups hsorted hlines fun _ _ hline => (line_eq_ok hline).1

def ConcurrencyReport.modeOf (row : DictRow) : ModeKey where
  mode := textOf (ascii "mode") row
  threads := textOf (ascii "threads") row

theorem ConcurrencyReport.modeKey_eq_ok (row : DictRow) (key : ModeKey)
    (h : modeKey row = .ok key) : modeOf row = key := by
  obtain ⟨mode, hmode, h⟩ := bind_eq_ok.mp h
  obtain ⟨threads, hthreads, h⟩ := bind_eq_ok.mp h
  obtain rfl := Except.ok.inj h
  rw [modeOf, textOf_eq_ok row mode hmode, textOf_eq_ok row threads hthreads]

theorem ConcurrencyReport.report_eq_ok {files : List CsvFile} {lines : List Line}
    (h : report files = .ok lines) :
    GroupLines modeOf (files.flatMap CsvFile.rows) line Line.key lines := by
  obtain ⟨groups, hgroups, h⟩ := bind_eq_ok.mp h
  obtain ⟨counts, hcounts, h⟩ := bind_eq_ok.mp h
  obtain rfl := groupRows_of_groupRowsM modeKey_eq_ok hgroups
  by_cases hordered : ((groupRows modeOf (files.flatMap CsvFile.rows)).all fun a =>
      (groupRows modeOf (files.flatMap CsvFile.rows)).all fun b =>
        ordered a.1.mode b.1.mode) = true
  · rw [if_pos hordered] at h
    have hlength : counts.length = (groupRows modeOf (files.flatMap CsvFile.rows)).length := by
      have hmap := congrArg List.length (mapM_eq_ok.mp hcounts)
      rw [List.length_map, List.length_map] at hmap
      exact hmap.symm
    have hperm := (List.perm_insertionSort (fun a b : ℤ × ModeKey × List DictRow =>
      a.2.1.mode.getD [] < b.2.1.mode.getD [] ∨ a.2.1.mode = b.2.1.mode ∧ a.1 ≤ b.1)
      (counts.zip (groupRows modeOf (files.flatMap CsvFile.rows)))).map Prod.snd
    rw [List.map_snd_zip hlength.ge] at hperm
    refine groupLines hperm ?_ fun _ _ hline => (line_eq_ok hline).1
    rw [List.mapM_map]
    exact h
  · rw [if_neg hordered] at h
    cases h

/-- The encoding report summarizes the groups of its rows. -/
theorem Report.summaries_groups {rows : List DictRow} {items : List Summary}
    (h : summaries rows = .ok items) :
    (groupRows configuration rows).mapM
      (fun group => summary (group.1, group.2.map measured)) = .ok items := by
  obtain ⟨entries, hentries, h⟩ := bind_eq_ok.mp h
  rw [eq_map_of_mapM (fun row entry => measuredRow_eq_ok) hentries, groupRows_map] at h
  simpa only [List.map_map, List.mapM_map, Function.comp_def] using h

/-- A summary of the encoding report, of rows that are still to be converted. -/
def Report.summaryOf (group : ConfigKey × List DictRow) : Except PyError Summary :=
  summary (group.1, group.2.map measured)

theorem Report.report_eq_ok {csv : CsvFile} {metadata : Bytes} {output : Output}
    (h : report csv metadata = .ok output) :
    GroupLines configuration csv.rows summaryOf Summary.key output.full := by
  obtain ⟨items, hitems, h⟩ := bind_eq_ok.mp h
  obtain ⟨verdict, -, h⟩ := bind_eq_ok.mp h
  obtain ⟨full, hfull, h⟩ := bind_eq_ok.mp h
  obtain ⟨protobuf, -, h⟩ := bind_eq_ok.mp h
  obtain ⟨json, -, h⟩ := bind_eq_ok.mp h
  obtain rfl := Except.ok.inj h
  unfold fullTable at hfull
  by_cases hordered : (items.all fun a => items.all fun b =>
      ordered a.key.testCase b.key.testCase) = true
  · rw [if_pos hordered] at hfull
    have hlines : GroupLines configuration csv.rows summaryOf Summary.key items :=
      groupLines (List.Perm.refl _) (summaries_groups hitems) fun _ _ hline =>
        (summary_eq_ok hline).1
    have hperm := sortedBy_perm hfull
    exact {
      lines_of := {
        nodup := (hperm.map Summary.key).nodup_iff.mpr hlines.lines_of.nodup
        mem_iff := fun k => (hperm.map Summary.key).mem_iff.trans (hlines.lines_of.mem_iff k) }
      line_eq := fun item hitem => hlines.line_eq item (hperm.mem_iff.mp hitem)
      nonempty := fun item hitem => hlines.nonempty item (hperm.mem_iff.mp hitem) }
  · rw [if_neg hordered] at hfull
    cases hfull

/-- The name of a variant in the tables of the report. -/
def shownName (variant : Variant) : Bytes :=
  (readMetadata variant.metadata (ascii "variant")).getD variant.name

/-- So does the compiler report for each variant. -/
theorem variantSummaries_groups {variant : Variant} {items : List CompilerReport.Summary}
    (h : variantSummaries variant = .ok items) :
    (groupRows configuration variant.raw.rows).mapM
      (fun group => CompilerReport.summary variant (group.1, group.2.map nsPerEncode)) =
        .ok items := by
  obtain ⟨groups, hgroups, h⟩ := bind_eq_ok.mp h
  obtain ⟨-, rfl⟩ := acceptedGroups_eq_ok hgroups
  simpa only [List.mapM_map, Function.comp_def] using h

theorem variantSummaries_shownName {variant : Variant} {items : List CompilerReport.Summary}
    (h : variantSummaries variant = .ok items) : ∀ item ∈ items,
      item.variant = shownName variant := by
  intro item hitem
  obtain ⟨group, -, hsummary⟩ := exists_value_of_mapM (variantSummaries_groups h) hitem
  obtain ⟨median, -, hsummary⟩ := bind_eq_ok.mp hsummary
  obtain ⟨mean, -, hsummary⟩ := bind_eq_ok.mp hsummary
  obtain rfl := Except.ok.inj hsummary
  rfl

/-- A summary of the compiler report is that of a group of its table. -/
theorem variantSummaries_eq_ok {variant : Variant} {items : List CompilerReport.Summary}
    (h : variantSummaries variant = .ok items) : ∀ item ∈ items,
      withKey configuration variant.raw.rows item.key ≠ [] ∧
        1000 / item.mean = meanTimeRate (withKey configuration variant.raw.rows item.key) := by
  intro item hitem
  obtain ⟨group, hgroup, hsummary⟩ := exists_value_of_mapM (variantSummaries_groups h) hitem
  obtain ⟨hkey, -, hmean⟩ := summary_eq_ok hsummary
  have hrows : group.2 = withKey configuration variant.raw.rows group.1 :=
    groupRows_values configuration variant.raw.rows group hgroup
  rw [hkey, ← hrows]
  exact ⟨groupRows_ne_nil configuration variant.raw.rows group hgroup, hmean⟩

/-- A line shows the summary that was chosen for it. -/
theorem fastestLine_eq_ok {items : List CompilerReport.Summary} {variant : Bytes}
    {testCase : Option Bytes} {line : FastestLine}
    (h : fastestLine items variant testCase = .ok line) :
    line.variant = variant ∧ line.testCase = testCase ∧
      ∃ item, best items variant testCase = some item ∧ line.best = item.key ∧
        line.median = item.median ∧ line.mps = 1000 / item.mean := by
  unfold fastestLine at h
  cases hbest : best items variant testCase with
  | none =>
    rw [hbest] at h
    cases h
  | some item =>
    rw [hbest] at h
    obtain ⟨mps, hmps, h⟩ := bind_eq_ok.mp h
    obtain rfl := Except.ok.inj h
    exact ⟨rfl, rfl, item, rfl, rfl, rfl, divide_eq_ok hmps⟩

theorem best_mem {items : List CompilerReport.Summary} {variant : Bytes}
    {testCase : Option Bytes} {item : CompilerReport.Summary}
    (h : best items variant testCase = some item) : item ∈ items ∧ item.variant = variant := by
  obtain ⟨hitem, hcase⟩ := List.mem_filter.mp (List.argmin_mem h)
  exact ⟨hitem, (of_decide_eq_true hcase).1⟩

theorem mem_sortedTexts {texts sorted : List (Option Bytes)} (h : sortedTexts texts = .ok sorted)
    (text : Option Bytes) : text ∈ sorted ↔ text ∈ texts := by
  unfold sortedTexts at h
  by_cases hordered : (texts.all fun a => texts.all fun b => ordered a b) = true
  · rw [if_pos hordered] at h
    obtain rfl := Except.ok.inj h
    rw [(List.perm_insertionSort _ _).mem_iff, List.mem_dedup]
  · rw [if_neg hordered] at h
    cases h

/-- Each summary's variant and test case have a line, and there are no other lines. -/
theorem fastestLines_eq_ok {items : List CompilerReport.Summary} {lines : List FastestLine}
    (h : fastestLines items = .ok lines) :
    (∀ line ∈ lines, fastestLine items line.variant line.testCase = .ok line) ∧
      ∀ item ∈ items, ∃ line ∈ lines,
        fastestLine items item.variant item.key.testCase = .ok line := by
  obtain ⟨blocks, hblocks, h⟩ := bind_eq_ok.mp h
  obtain rfl := Except.ok.inj h
  constructor
  · intro line hline
    obtain ⟨block, hblock, hmem⟩ := List.mem_flatten.mp hline
    obtain ⟨variant, -, hvariant⟩ := exists_value_of_mapM hblocks hblock
    obtain ⟨cases, -, hlines⟩ := bind_eq_ok.mp hvariant
    obtain ⟨testCase, -, hfast⟩ := exists_value_of_mapM hlines hmem
    obtain ⟨hvariant, htestCase, -⟩ := fastestLine_eq_ok hfast
    rw [hvariant, htestCase]
    exact hfast
  · intro item hitem
    have hname : item.variant ∈
        (items.map CompilerReport.Summary.variant).dedup.insertionSort (· ≤ ·) := by
      rw [(List.perm_insertionSort _ _).mem_iff, List.mem_dedup]
      exact List.mem_map_of_mem hitem
    obtain ⟨block, hblock, hvariant⟩ := exists_result_of_mapM hblocks hname
    obtain ⟨cases, hcases, hlines⟩ := bind_eq_ok.mp hvariant
    have hcase : item.key.testCase ∈ cases := by
      rw [mem_sortedTexts hcases]
      have hrow : item ∈ items.filter fun row => row.variant = item.variant :=
        List.mem_filter.mpr ⟨hitem, decide_eq_true rfl⟩
      exact List.mem_map.mpr ⟨item, hrow, rfl⟩
    obtain ⟨line, hline, hfast⟩ := exists_result_of_mapM hlines hcase
    exact ⟨line, List.mem_flatten.mpr ⟨block, hblock, hline⟩, hfast⟩

theorem compilerReport_fastest {variants : List Variant} {report : CompilerReport.Report}
    (h : compilerReport variants = .ok report) :
    ∃ summaries, variants.mapM variantSummaries = .ok summaries ∧
      fastestLines summaries.flatten = .ok report.fastest := by
  obtain ⟨summaries, hsummaries, h⟩ := bind_eq_ok.mp h
  obtain ⟨-, h⟩ := guard_eq_ok.mp h
  obtain ⟨fastest, hfastest, h⟩ := bind_eq_ok.mp h
  obtain ⟨rows, -, h⟩ := bind_eq_ok.mp h
  obtain rfl := Except.ok.inj h
  exact ⟨summaries, hsummaries, hfastest⟩

theorem variantSummaries_mem {variant : Variant} {items : List CompilerReport.Summary}
    (h : variantSummaries variant = .ok items) {row : DictRow} (hrow : row ∈ variant.raw.rows) :
    ∃ item ∈ items, item.key = configuration row := by
  have hkey : configuration row ∈ (groupRows configuration variant.raw.rows).map Prod.fst :=
    (mem_keys_groupRows configuration _ _).mpr (List.mem_map_of_mem hrow)
  obtain ⟨group, hgroup, hfirst⟩ := List.mem_map.mp hkey
  obtain ⟨item, hitem, hsummary⟩ := exists_result_of_mapM (variantSummaries_groups h) hgroup
  exact ⟨item, hitem, (summary_eq_ok hsummary).1.trans hfirst⟩

/-- Every variant has a line for each test case of its rows, and a line shows the rate of a
configuration of its variant. -/
theorem compilerReport_eq_ok {variants : List Variant} {report : CompilerReport.Report}
    (h : compilerReport variants = .ok report) :
    (∀ variant ∈ variants, ∀ row ∈ variant.raw.rows, ∃ line ∈ report.fastest,
      line.variant = shownName variant ∧ line.testCase = (configuration row).testCase) ∧
    ∀ line ∈ report.fastest, ∃ variant ∈ variants, shownName variant = line.variant ∧
      line.best.testCase = line.testCase ∧
      withKey configuration variant.raw.rows line.best ≠ [] ∧
      line.mps = meanTimeRate (withKey configuration variant.raw.rows line.best) := by
  obtain ⟨summaries, hsummaries, hfastest⟩ := compilerReport_fastest h
  obtain ⟨hlines, hall⟩ := fastestLines_eq_ok hfastest
  constructor
  · intro variant hvariant row hrow
    obtain ⟨items, hitems, hvariant'⟩ := exists_result_of_mapM hsummaries hvariant
    obtain ⟨item, hitem, hkey⟩ := variantSummaries_mem hvariant' hrow
    obtain ⟨line, hline, hfast⟩ := hall item (List.mem_flatten.mpr ⟨items, hitems, hitem⟩)
    obtain ⟨hname, hcase, -⟩ := fastestLine_eq_ok hfast
    rw [variantSummaries_shownName hvariant' item hitem] at hname
    rw [hkey] at hcase
    exact ⟨line, hline, hname, hcase⟩
  · intro line hline
    obtain ⟨-, -, item, hbest, hkey, -, hmps⟩ := fastestLine_eq_ok (hlines line hline)
    obtain ⟨hitem, hname⟩ := best_mem hbest
    obtain ⟨-, hfilter⟩ := List.mem_filter.mp (List.argmin_mem hbest)
    obtain ⟨items, hitems, hmem⟩ := List.mem_flatten.mp hitem
    obtain ⟨variant, hvariant, hvariant'⟩ := exists_value_of_mapM hsummaries hitems
    have hshown := variantSummaries_shownName hvariant' item hmem
    obtain ⟨hne, hmean⟩ := variantSummaries_eq_ok hvariant' item hmem
    rw [hkey, hmps]
    exact ⟨variant, hvariant, hshown.symm.trans hname, (of_decide_eq_true hfilter).2, hne, hmean⟩

end Reports

section MeanMps

/-- A cell with the mean of the rates of a group, and when that is its throughput. -/
structure MeanOfRates (cell : ℚ) (rows : List DictRow) : Prop where
  eq_meanRate : cell = meanRate rows
  throughput_le : totalThroughput rows ≤ cell
  eq_throughput_iff : cell = totalThroughput rows ↔
    ∀ row ∈ rows, ∀ row' ∈ rows, nsPerEncode row = nsPerEncode row'

theorem meanOfRates {cell : ℚ} {rows : List DictRow} (h : Repetitions rows) (hne : rows ≠ [])
    (hcell : cell = meanRate rows) : MeanOfRates cell rows := by
  obtain ⟨hle, hiff⟩ := meanRate_bounds h hne
  subst hcell
  exact ⟨rfl, hle, hiff⟩

/-- The cells `Mean M/s`: the throughput of the group in the reports on representations
and compilers, the mean of the rates in those on libraries, concurrency and
distributions. Every group has its line; the compiler report has one for each test case of
a variant, which shows the cell of one of its groups. -/
theorem mean_mps_cells :
    (∀ csv lines, RepresentationReport.report csv = .ok lines →
      LinesOf (lines.map RepresentationReport.Line.representation)
        (textOf (ascii "representation")) csv.rows ∧
      ∀ line ∈ lines,
        Repetitions (withKey (textOf (ascii "representation")) csv.rows line.representation) →
        line.mps = totalThroughput
          (withKey (textOf (ascii "representation")) csv.rows line.representation)) ∧
    (∀ variants report, compilerReport variants = .ok report →
      (∀ variant ∈ variants, ∀ row ∈ variant.raw.rows, ∃ line ∈ report.fastest,
        line.variant = shownName variant ∧ line.testCase = (configuration row).testCase) ∧
      ∀ line ∈ report.fastest, ∃ variant ∈ variants, shownName variant = line.variant ∧
        line.best.testCase = line.testCase ∧
        withKey configuration variant.raw.rows line.best ≠ [] ∧
        (Repetitions (withKey configuration variant.raw.rows line.best) →
          line.mps = totalThroughput (withKey configuration variant.raw.rows line.best))) ∧
    (∀ csv metadata output, Report.report csv metadata = .ok output →
      LinesOf (output.full.map Report.Summary.key) configuration csv.rows ∧
      ∀ item ∈ output.full,
        Repetitions (withKey configuration csv.rows item.key) →
        RatesInverse (withKey configuration csv.rows item.key) →
        MeanOfRates item.meanMps (withKey configuration csv.rows item.key)) ∧
    (∀ files lines, ConcurrencyReport.report files = .ok lines →
      LinesOf (lines.map ConcurrencyReport.Line.key) ConcurrencyReport.modeOf
        (files.flatMap CsvFile.rows) ∧
      ∀ line ∈ lines,
        Repetitions (withKey ConcurrencyReport.modeOf (files.flatMap CsvFile.rows) line.key) →
        MeanOfRates line.mps
          (withKey ConcurrencyReport.modeOf (files.flatMap CsvFile.rows) line.key)) ∧
    (∀ csv lines, DistributionReport.report csv = .ok lines →
      LinesOf (lines.map DistributionReport.Line.distribution)
        (textOf (ascii "distribution")) csv.rows ∧
      ∀ line ∈ lines,
        Repetitions (withKey (textOf (ascii "distribution")) csv.rows line.distribution) →
        MeanOfRates line.mps
          (withKey (textOf (ascii "distribution")) csv.rows line.distribution)) := by
  refine ⟨?_, ?_, ?_, ?_, ?_⟩
  · intro csv lines hreport
    have hlines := RepresentationReport.report_eq_ok hreport
    refine ⟨hlines.lines_of, fun line hline hrepetitions => ?_⟩
    have hmps := (RepresentationReport.line_eq_ok (hlines.line_eq line hline)).2
    exact hmps.trans (totalThroughput_eq hrepetitions (hlines.nonempty line hline)).symm
  · intro variants report hreport
    obtain ⟨hall, hcells⟩ := compilerReport_eq_ok hreport
    refine ⟨hall, fun line hline => ?_⟩
    obtain ⟨variant, hvariant, hname, hcase, hne, hmps⟩ := hcells line hline
    refine ⟨variant, hvariant, hname, hcase, hne, fun hrepetitions => ?_⟩
    exact hmps.trans (totalThroughput_eq hrepetitions hne).symm
  · intro csv metadata output hreport
    have hlines := Report.report_eq_ok hreport
    refine ⟨hlines.lines_of, fun item hitem hrepetitions hrates => ?_⟩
    obtain ⟨-, -, hmps⟩ := Report.summary_eq_ok (hlines.line_eq item hitem)
    exact meanOfRates hrepetitions (hlines.nonempty item hitem) (hmps hrates)
  · intro files lines hreport
    have hlines := ConcurrencyReport.report_eq_ok hreport
    refine ⟨hlines.lines_of, fun line hline hrepetitions => ?_⟩
    have hmps := (ConcurrencyReport.line_eq_ok (hlines.line_eq line hline)).2
    exact meanOfRates hrepetitions (hlines.nonempty line hline) hmps
  · intro csv lines hreport
    have hlines := DistributionReport.report_eq_ok hreport
    refine ⟨hlines.lines_of, fun line hline hrepetitions => ?_⟩
    have hmps := (DistributionReport.line_eq_ok (hlines.line_eq line hline)).2
    exact meanOfRates hrepetitions (hlines.nonempty line hline) hmps

/-- Two repetitions of a million encodes, of 100 and 200 ns each. -/
def twoRates : CsvFile where
  header := ["kind", "library", "codegen", "api", "test_case", "representation", "distribution",
    "mode", "threads", "iterations", "bytes", "mean_bytes", "ns_per_encode",
    "encodes_per_second"].map ascii
  records := [("100.000", "10000000.000"), ("200.000", "5000000.000")].map fun rate =>
    ["protobuf", "google_protobuf", "speed", "SerializeToArray_preallocated",
      "one_string_ten_int64", "decimal_string", "mixed", "thread_local", "2", "1000000", "49",
      "49.0", rate.1, rate.2].map ascii

theorem repetitions_withKey {κ : Type} [DecidableEq κ] (key : DictRow → κ) (k : κ)
    {rows : List DictRow}
    (h : ∀ row ∈ rows, (row.intItem (ascii "iterations")).toOption = some 1000000 ∧
      0 < nsPerEncode row) : Repetitions (withKey key rows k) where
  iterations := ⟨1000000, by decide, fun row hrow =>
    eq_ok_of_toOption (h row (List.mem_of_mem_filter hrow)).1⟩
  positive := fun row hrow => (h row (List.mem_of_mem_filter hrow)).2

theorem twoRates_read : ∀ row ∈ twoRates.rows,
    (row.intItem (ascii "iterations")).toOption = some 1000000 ∧ 0 < nsPerEncode row ∧
      (row.floatItem (ascii "encodes_per_second")).toOption =
        some (1000000000 / nsPerEncode row) := by
  decide +kernel

theorem twoRates_repetitions {κ : Type} [DecidableEq κ] (key : DictRow → κ) (k : κ) :
    Repetitions (withKey key twoRates.rows k) :=
  repetitions_withKey key k fun row hrow =>
    ⟨(twoRates_read row hrow).1, (twoRates_read row hrow).2.1⟩

theorem twoRates_ratesInverse {κ : Type} [DecidableEq κ] (key : DictRow → κ) (k : κ) :
    RatesInverse (withKey key twoRates.rows k) := fun row hrow =>
  eq_ok_of_toOption (twoRates_read row (List.mem_of_mem_filter hrow)).2.2

/-- The configuration of these rows. -/
def twoRatesKey : ConfigKey where
  kind := some (ascii "protobuf")
  library := some (ascii "google_protobuf")
  codegen := some (ascii "speed")
  api := some (ascii "SerializeToArray_preallocated")
  testCase := some (ascii "one_string_ten_int64")

theorem totalThroughput_of_forall {rows : List DictRow} (h : Repetitions rows) (hne : rows ≠ [])
    {ns : ℚ} (hns : ∀ row ∈ rows, nsPerEncode row = ns) : totalThroughput rows = 1000 / ns := by
  have hcount : (rows.length : ℚ) ≠ 0 := by
    rw [ne_eq, Nat.cast_eq_zero, List.length_eq_zero_iff]
    exact hne
  rw [totalThroughput_eq h hne, List.map_congr_left hns, List.map_const', List.sum_replicate,
    nsmul_eq_mul, mul_div_cancel_left₀ _ hcount]

/-- A group whose throughput is 20/3 and whose rates are 7.5 in the mean, and a variant whose
configurations all take 50 ns: each report shows its cell. -/
theorem mean_mps_cells_two_rates :
    (∃ lines, RepresentationReport.report twoRates = .ok lines ∧ ∃ line ∈ lines,
      line.representation = some (ascii "decimal_string") ∧ line.mps = 20 / 3) ∧
    (∃ report, compilerReport [⟨ascii "gcc", sampleTable (List.range' 1 10), []⟩] = .ok report ∧
      ∃ line ∈ report.fastest, line.variant = ascii "gcc" ∧ line.mps = 20) ∧
    (∃ output, Report.report twoRates [] = .ok output ∧ ∃ item ∈ output.full,
      item.key = twoRatesKey ∧ item.meanMps = 15 / 2) ∧
    (∃ lines, ConcurrencyReport.report [twoRates] = .ok lines ∧ ∃ line ∈ lines,
      line.key = ⟨some (ascii "thread_local"), some (ascii "2")⟩ ∧ line.mps = 15 / 2) ∧
    (∃ lines, DistributionReport.report twoRates = .ok lines ∧ ∃ line ∈ lines,
      line.distribution = some (ascii "mixed") ∧ line.mps = 15 / 2) := by
  obtain ⟨hrepresentation, hcompiler, hreport, hconcurrency, hdistribution⟩ := mean_mps_cells
  refine ⟨?_, ?_, ?_, ?_, ?_⟩
  · obtain ⟨lines, hlines⟩ := exists_ok
      (show (RepresentationReport.report twoRates).toOption.isSome = true by decide +kernel)
    obtain ⟨hkeys, hcells⟩ := hrepresentation twoRates lines hlines
    obtain ⟨line, hline, hkey⟩ := List.mem_map.mp
      ((hkeys.mem_iff (some (ascii "decimal_string"))).mpr
      (by decide +kernel))
    refine ⟨lines, hlines, line, hline, hkey, ?_⟩
    rw [hcells line hline (twoRates_repetitions _ _), hkey]
    decide +kernel
  · have hrows : ∀ row ∈ (sampleTable (List.range' 1 10)).rows,
        (row.intItem (ascii "iterations")).toOption = some 1000000 ∧ nsPerEncode row = 50 := by
      decide +kernel
    have hfirst : (sampleTable (List.range' 1 10)).rows ≠ [] := by decide
    obtain ⟨row, hrow⟩ := List.exists_mem_of_ne_nil _ hfirst
    obtain ⟨report, hok⟩ := exists_ok
      (show (compilerReport [⟨ascii "gcc", sampleTable (List.range' 1 10), []⟩]).toOption.isSome =
        true by decide +kernel)
    obtain ⟨hall, hcells⟩ := hcompiler _ report hok
    obtain ⟨line, hline, hname, -⟩ := hall _ List.mem_cons_self row hrow
    obtain ⟨variant, hvariant, -, -, hne, hcell⟩ := hcells line hline
    obtain rfl := List.mem_singleton.mp hvariant
    have hrepetitions := repetitions_withKey configuration line.best fun row hrow =>
      ⟨(hrows row hrow).1, by rw [(hrows row hrow).2]; norm_num⟩
    refine ⟨report, hok, line, hline, hname, (hcell hrepetitions).trans ?_⟩
    rw [totalThroughput_of_forall hrepetitions hne fun row hrow =>
      (hrows row (List.mem_of_mem_filter hrow)).2]
    norm_num
  · obtain ⟨output, houtput⟩ := exists_ok
      (show (Report.report twoRates []).toOption.isSome = true by decide +kernel)
    obtain ⟨hkeys, hcells⟩ := hreport twoRates [] output houtput
    obtain ⟨item, hitem, hkey⟩ :=
      List.mem_map.mp ((hkeys.mem_iff twoRatesKey).mpr (by decide +kernel))
    have hcell := hcells item hitem (twoRates_repetitions _ _) (twoRates_ratesInverse _ _)
    refine ⟨output, houtput, item, hitem, hkey, hcell.eq_meanRate.trans ?_⟩
    rw [hkey]
    decide +kernel
  · obtain ⟨lines, hlines⟩ := exists_ok
      (show (ConcurrencyReport.report [twoRates]).toOption.isSome = true by decide +kernel)
    obtain ⟨hkeys, hcells⟩ := hconcurrency [twoRates] lines hlines
    obtain ⟨line, hline, hkey⟩ := List.mem_map.mp ((hkeys.mem_iff
      ⟨some (ascii "thread_local"), some (ascii "2")⟩).mpr (by decide +kernel))
    have hcell := hcells line hline (by
      rw [List.flatMap_singleton]
      exact twoRates_repetitions _ _)
    refine ⟨lines, hlines, line, hline, hkey, hcell.eq_meanRate.trans ?_⟩
    rw [hkey]
    decide +kernel
  · obtain ⟨lines, hlines⟩ := exists_ok
      (show (DistributionReport.report twoRates).toOption.isSome = true by decide +kernel)
    obtain ⟨hkeys, hcells⟩ := hdistribution twoRates lines hlines
    obtain ⟨line, hline, hkey⟩ := List.mem_map.mp ((hkeys.mem_iff (some (ascii "mixed"))).mpr
      (by decide +kernel))
    have hcell := hcells line hline (twoRates_repetitions _ _)
    refine ⟨lines, hlines, line, hline, hkey, hcell.eq_meanRate.trans ?_⟩
    rw [hkey]
    decide +kernel

/-- The encoding report shows 7.5 for a group whose throughput is 20/3. -/
theorem twoRates_mean_above_throughput :
    ∃ output, Report.report twoRates [] = .ok output ∧ ∃ item ∈ output.full,
      Repetitions (withKey configuration twoRates.rows item.key) ∧
        RatesInverse (withKey configuration twoRates.rows item.key) ∧
        item.meanMps ≠ totalThroughput (withKey configuration twoRates.rows item.key) := by
  have hfull : ∃ item ∈ ((Report.report twoRates []).toOption.map Report.Output.full).getD [],
      item.meanMps = 15 / 2 ∧
        totalThroughput (withKey configuration twoRates.rows item.key) = 20 / 3 := by
    decide +kernel
  obtain ⟨output, houtput⟩ := exists_ok
    (show (Report.report twoRates []).toOption.isSome = true by decide +kernel)
  rw [houtput] at hfull
  obtain ⟨item, hitem, hmean, hthroughput⟩ := hfull
  refine ⟨output, houtput, item, hitem, twoRates_repetitions _ _, twoRates_ratesInverse _ _, ?_⟩
  rw [hmean, hthroughput]
  norm_num

end MeanMps

end ProtobufKafkaBench.EncodingReports

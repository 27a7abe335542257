import ProtobufKafkaBench.AsyncReports

/-!
Which lost events the two pipeline reports show. The cell for a count is half the
sum of the two middle counts, rounded down, so a minority of lossy repetitions
leaves no trace in it, and half of them must lose two events to leave one.
-/
namespace ProtobufKafkaBench.AsyncReports

open Exceptions ByteBuffers CsvTables Grouping KafkaReports Medians
open Transitions AtomicCells WireFormat MarketEvents CommandLine SpscPointerRing AsyncPipeline

section Cells

theorem truncate_half (n : ℕ) : truncate ((n : ℚ) / 2) = (n / 2 : ℕ) := by
  have hdiv := truncate_div n 2
  rwa [Nat.cast_ofNat] at hdiv

/-- The cell for a column of counts. -/
theorem median_of_counts {rows : List DictRow} {field : Bytes} {counts : List ℕ}
    (hne : counts ≠ [])
    (hcounts : List.Forall₂ (fun count row => row.floatItem field = .ok (count : ℚ)) counts rows) :
    ∃ value, median rows field = .ok value ∧ truncate value = middleCount counts := by
  have hvalues : rows.mapM (fun row => row.floatItem field) =
      .ok (counts.map (Nat.cast : ℕ → ℚ)) := by
    rw [mapM_eq_ok]
    clear hne
    induction hcounts with
    | nil => rfl
    | cons hcount _ ih => simp [hcount, ih]
  refine ⟨_, ?_, truncate_half _⟩
  unfold median
  rw [hvalues]
  simp only [bind, Except.bind, median_cast hne]
  rfl

end Cells

section Groups

/-- The key of a row, where a missing column counts as `None`. -/
def keyOf (row : DictRow) : GroupKey where
  mode := (row.lookup (ascii "mode")).getD none
  testCase := (row.lookup (ascii "test_case")).getD none

theorem groupKey_eq_ok {row : DictRow} {key : GroupKey} (h : groupKey row = .ok key) :
    keyOf row = key := by
  obtain ⟨mode, hmode, hrest⟩ := bind_eq_ok.mp h
  obtain ⟨testCase, htest, heq⟩ := bind_eq_ok.mp hrest
  obtain rfl := Except.ok.inj heq
  unfold keyOf
  rw [DictRow.lookup_of_item hmode, DictRow.lookup_of_item htest]
  rfl

theorem grouped_eq_ok {rows : List DictRow} {groups : List Group}
    (h : grouped rows = .ok groups) : groupRows keyOf rows = groups :=
  groupRows_of_groupRowsM (fun _ _ => groupKey_eq_ok) h

end Groups

section Lines

/-- The cells of a results line are those of the rows with its key. -/
theorem asyncPipelineReport_line {csv : CsvFile} {metadata : Bytes} {report : Report}
    (hreport : asyncPipelineReport csv metadata = .ok report) {line : ResultLine}
    (hline : line ∈ report.results) :
    (∃ value, median (withKey keyOf csv.rows line.key) (ascii "completed") = .ok value ∧
      line.completed = truncate value) ∧
    ∃ value, median (withKey keyOf csv.rows line.key) (ascii "dropped") = .ok value ∧
      line.dropped = truncate value := by
  obtain ⟨groups, hgroups, hrest⟩ := bind_eq_ok.mp hreport
  obtain ⟨items, hitems, hrest⟩ := bind_eq_ok.mp hrest
  obtain ⟨results, hresults, heq⟩ := bind_eq_ok.mp hrest
  obtain rfl := Except.ok.inj heq
  obtain ⟨group, hgroup, hcells⟩ := exists_value_of_mapM hresults hline
  have hgroup' : group ∈ groups := by
    unfold sortedItems at hitems
    split at hitems
    · obtain rfl := Except.ok.inj hitems
      exact (List.perm_insertionSort _ _).mem_iff.mp hgroup
    · cases hitems
  have hrows : group.2 = withKey keyOf csv.rows group.1 := by
    rw [← grouped_eq_ok hgroups] at hgroup'
    exact groupRows_values keyOf csv.rows group hgroup'
  obtain ⟨completed, hcompleted, hcells⟩ := bind_eq_ok.mp hcells
  obtain ⟨dropped, hdropped, hcells⟩ := bind_eq_ok.mp hcells
  obtain ⟨workerWall, -, hcells⟩ := bind_eq_ok.mp hcells
  obtain ⟨payloadBytes, -, hcells⟩ := bind_eq_ok.mp hcells
  obtain ⟨hotP50, -, hcells⟩ := bind_eq_ok.mp hcells
  obtain ⟨hotP99, -, hcells⟩ := bind_eq_ok.mp hcells
  obtain ⟨workerP50, -, hcells⟩ := bind_eq_ok.mp hcells
  obtain ⟨workerP99, -, hcells⟩ := bind_eq_ok.mp hcells
  obtain rfl := Except.ok.inj hcells
  rw [hrows] at hcompleted hdropped
  exact ⟨⟨completed, hcompleted, rfl⟩, dropped, hdropped, rfl⟩

theorem asyncPipelineMatrix_line {arm amd : CsvFile} {lines : List MatrixLine}
    (hmatrix : asyncPipelineMatrix (some arm) (some amd) = .ok (some lines)) {line : MatrixLine}
    (hline : line ∈ lines) :
    (∃ value, median (withKey keyOf arm.rows line.key) (ascii "dropped") = .ok value ∧
      line.armDrops = truncate value) ∧
    ∃ value, median (withKey keyOf amd.rows line.key) (ascii "dropped") = .ok value ∧
      line.amdDrops = truncate value := by
  obtain ⟨armGroups, harm, hrest⟩ := bind_eq_ok.mp hmatrix
  obtain ⟨amdGroups, hamd, hrest⟩ := bind_eq_ok.mp hrest
  obtain ⟨keys, -, hrest⟩ := bind_eq_ok.mp hrest
  obtain ⟨printed, hprinted, heq⟩ := bind_eq_ok.mp hrest
  obtain rfl := Option.some.inj (Except.ok.inj heq)
  obtain ⟨key, -, hcells⟩ := exists_value_of_mapM hprinted hline
  have harmRows := groupRows_lookup keyOf arm.rows key
  have hamdRows := groupRows_lookup keyOf amd.rows key
  rw [grouped_eq_ok harm] at harmRows
  rw [grouped_eq_ok hamd] at hamdRows
  obtain ⟨armHot, -, hcells⟩ := bind_eq_ok.mp hcells
  obtain ⟨amdHot, -, hcells⟩ := bind_eq_ok.mp hcells
  obtain ⟨armWorker, -, hcells⟩ := bind_eq_ok.mp hcells
  obtain ⟨amdWorker, -, hcells⟩ := bind_eq_ok.mp hcells
  obtain ⟨armMps, -, hcells⟩ := bind_eq_ok.mp hcells
  obtain ⟨amdMps, -, hcells⟩ := bind_eq_ok.mp hcells
  obtain ⟨armDrops, harmDrops, hcells⟩ := bind_eq_ok.mp hcells
  obtain ⟨amdDrops, hamdDrops, hcells⟩ := bind_eq_ok.mp hcells
  obtain rfl := Except.ok.inj hcells
  rw [harmRows] at harmDrops
  rw [hamdRows] at hamdDrops
  exact ⟨⟨armDrops, harmDrops, rfl⟩, amdDrops, hamdDrops, rfl⟩

end Lines

section Repetitions

/-- What became of the events of one repetition. -/
structure Repetition (iterations : ℕ) where
  completed : ℕ
  dropped : ℕ
  completed_le : completed ≤ iterations

variable {Event : Type} [Traits Event] {visibility : Visibility} {runtime : Runtime}
  {config : Config} {mode : Mode} {base : Event} {payloadBytes : ℕ}
  {history : List (AsyncState Event × Label)} {state : AsyncState Event}

/-- A repetition of an asynchronous mode, after `run_async` has returned. -/
def runRepetition
    (run : Run (AsyncStep visibility runtime config mode base payloadBytes)
      (AsyncState.initial base) history state)
    (hreturned : state.main = .returned) : Repetition config.iterations.toNat where
  completed := state.result.completed.toNat
  dropped := state.result.dropped.toNat
  completed_le := by
    have hprocessed := processed_le run
    have hattempted := (run_producer run).attempted_le
    have hlength := attempted_length (visible ringEvent history)
    rw [((run_main run).returned hreturned).2.1, completed_toNat run]
    omega

/-- Under the guard of `parse_args` it has dropped nothing, so that a shortfall of the
completed events is all there is to see. -/
theorem runRepetition_dropped
    (run : Run (AsyncStep visibility runtime config mode base payloadBytes)
      (AsyncState.initial base) history state)
    (hreturned : state.main = .returned)
    (hcapacity : config.iterations.toNat ≤ kQueueCapacity) :
    (runRepetition run hreturned).dropped = 0 := by
  have hdropped := dropped_toNat run
  rw [refused_nil hcapacity run] at hdropped
  exact hdropped

end Repetitions

section Losses

variable {iterations : ℕ}

/-- The rows of the repetitions, in their order. -/
def Recorded (repetitions : List (Repetition iterations)) (rows : List DictRow) : Prop :=
  List.Forall₂ (fun repetition row =>
    row.floatItem (ascii "completed") = .ok (repetition.completed : ℚ) ∧
      row.floatItem (ascii "dropped") = .ok (repetition.dropped : ℚ)) repetitions rows

/-- No repetition dropped an event, or more than half did, or at least half dropped two. -/
def DropsShow (repetitions : List (Repetition iterations)) : Prop :=
  (∀ repetition ∈ repetitions, repetition.dropped = 0) ∨
    repetitions.length < 2 * repetitions.countP (fun repetition => 0 < repetition.dropped) ∨
    repetitions.length ≤ 2 * repetitions.countP fun repetition => 1 < repetition.dropped

/-- Every repetition completed all its events, or at least half did not. -/
def ShortfallsShow (repetitions : List (Repetition iterations)) : Prop :=
  (∀ repetition ∈ repetitions, repetition.completed = iterations) ∨
    repetitions.length ≤ 2 * repetitions.countP fun repetition =>
      repetition.completed < iterations

variable {repetitions : List (Repetition iterations)} {rows : List DictRow}

theorem Recorded.ne_nil (h : Recorded repetitions rows) {field : Bytes} {value : ℚ}
    (hvalue : median rows field = .ok value) : repetitions ≠ [] := by
  intro hnil
  subst hnil
  obtain rfl := List.forall₂_nil_left_iff.mp h
  cases hvalue

/-- The cell for the drops is right in just these cases. -/
theorem dropped_cell_iff (h : Recorded repetitions rows) {value : ℚ}
    (hvalue : median rows (ascii "dropped") = .ok value) :
    (truncate value = 0 ↔ ∀ repetition ∈ repetitions, repetition.dropped = 0) ↔
      DropsShow repetitions := by
  have hne : repetitions.map Repetition.dropped ≠ [] := by simpa using h.ne_nil hvalue
  have hlength := List.length_pos_iff.mpr hne
  obtain ⟨other, hother, hcell⟩ := median_of_counts hne
    (List.forall₂_map_left_iff.mpr (h.imp fun _ _ hrow => hrow.2))
  obtain rfl := Except.ok.inj (hother.symm.trans hvalue)
  have hzero := middleCount_eq_zero_iff hne
  simp only [List.length_map, List.countP_map, Function.comp_def] at hzero hlength
  have hnone : (∀ repetition ∈ repetitions, repetition.dropped = 0) ↔
      repetitions.countP (fun repetition => 0 < repetition.dropped) = 0 := by
    simp [List.countP_eq_zero]
  have hmono : repetitions.countP (fun repetition => 1 < repetition.dropped) ≤
      repetitions.countP fun repetition => 0 < repetition.dropped := by
    apply List.countP_mono_left
    intro repetition _ htwo
    have htwo' := of_decide_eq_true htwo
    exact decide_eq_true (by omega)
  unfold DropsShow
  rw [hcell, Nat.cast_eq_zero, hzero, hnone]
  omega

/-- A full count in the cell for the completed events can be trusted in just these cases. -/
theorem completed_cell_iff (h : Recorded repetitions rows) {value : ℚ}
    (hvalue : median rows (ascii "completed") = .ok value) :
    (truncate value = iterations →
      ∀ repetition ∈ repetitions, repetition.completed = iterations) ↔
      ShortfallsShow repetitions := by
  have hne : repetitions.map Repetition.completed ≠ [] := by simpa using h.ne_nil hvalue
  obtain ⟨other, hother, hcell⟩ := median_of_counts hne
    (List.forall₂_map_left_iff.mpr (h.imp fun _ _ hrow => hrow.1))
  obtain rfl := Except.ok.inj (hother.symm.trans hvalue)
  have hbound : ∀ count ∈ repetitions.map Repetition.completed, count ≤ iterations := by
    intro count hcount
    obtain ⟨repetition, -, rfl⟩ := List.mem_map.mp hcount
    exact repetition.completed_le
  have hfull := middleCount_eq_bound_iff hne hbound
  simp only [List.length_map, List.countP_map, Function.comp_def] at hfull
  unfold ShortfallsShow
  rw [hcell, Nat.cast_inj, hfull]
  constructor
  · intro himp
    by_cases hfew : 2 * repetitions.countP
        (fun repetition => repetition.completed < iterations) < repetitions.length
    · exact Or.inl (himp hfew)
    · exact Or.inr (by omega)
  · intro hshow hfew
    rcases hshow with hall | hmany
    · exact hall
    · omega

end Losses

section Reports

variable {iterations armIterations amdIterations : ℕ}
  {repetitions : List (Repetition iterations)}
  {armRepetitions : List (Repetition armIterations)}
  {amdRepetitions : List (Repetition amdIterations)}

/-- The counts in a line of either report are truthful about the losses of its
repetitions exactly when those losses are frequent enough to show. -/
theorem losses_shown_iff {csv : CsvFile} {metadata : Bytes} {report : Report}
    (hreport : asyncPipelineReport csv metadata = .ok report) {result : ResultLine}
    (hresult : result ∈ report.results)
    (hrepetitions : Recorded repetitions (withKey keyOf csv.rows result.key))
    {arm amd : CsvFile} {lines : List MatrixLine}
    (hmatrix : asyncPipelineMatrix (some arm) (some amd) = .ok (some lines)) {line : MatrixLine}
    (hline : line ∈ lines) (harm : Recorded armRepetitions (withKey keyOf arm.rows line.key))
    (hamd : Recorded amdRepetitions (withKey keyOf amd.rows line.key)) :
    (((result.dropped = 0 ↔ ∀ repetition ∈ repetitions, repetition.dropped = 0) ↔
        DropsShow repetitions) ∧
      ((result.completed = iterations →
          ∀ repetition ∈ repetitions, repetition.completed = iterations) ↔
        ShortfallsShow repetitions)) ∧
    ((line.armDrops = 0 ↔ ∀ repetition ∈ armRepetitions, repetition.dropped = 0) ↔
      DropsShow armRepetitions) ∧
    ((line.amdDrops = 0 ↔ ∀ repetition ∈ amdRepetitions, repetition.dropped = 0) ↔
      DropsShow amdRepetitions) := by
  obtain ⟨⟨completed, hcompleted, heqCompleted⟩, dropped, hdropped, heqDropped⟩ :=
    asyncPipelineReport_line hreport hresult
  obtain ⟨⟨armDrops, harmDrops, heqArm⟩, amdDrops, hamdDrops, heqAmd⟩ :=
    asyncPipelineMatrix_line hmatrix hline
  rw [heqCompleted, heqDropped, heqArm, heqAmd]
  refine ⟨⟨?_, ?_⟩, ?_, ?_⟩
  · exact dropped_cell_iff hrepetitions hdropped
  · exact completed_cell_iff hrepetitions hcompleted
  · exact dropped_cell_iff harm harmDrops
  · exact dropped_cell_iff hamd hamdDrops

/-- Three repetitions of a million events, the second of which dropped one. -/
def oneDropped : CsvFile where
  header :=
    ["mode", "test_case", "repetition", "iterations", "completed", "dropped", "payload_bytes",
      "hot_elapsed_ns", "worker_wall_ns", "hot_mean_ns", "hot_p50_ns", "hot_p99_ns",
      "worker_mean_ns", "worker_p50_ns", "worker_p99_ns", "checksum"].map ascii
  records :=
    [["async_both", "one_string_ten_int64", "1", "1000000", "1000000", "0", "91", "30000000",
        "200000000", "30.000", "20.000", "60.000", "200.000", "190.000", "300.000", "7"],
      ["async_both", "one_string_ten_int64", "2", "1000000", "999999", "1", "91", "30000000",
        "200000000", "30.000", "20.000", "60.000", "200.000", "190.000", "300.000", "7"],
      ["async_both", "one_string_ten_int64", "3", "1000000", "1000000", "0", "91", "30000000",
        "200000000", "30.000", "20.000", "60.000", "200.000", "190.000", "300.000", "7"]].map
      fun record => record.map ascii

def oneDroppedRepetitions : List (Repetition 1000000) :=
  [⟨1000000, 0, le_rfl⟩, ⟨999999, 1, by omega⟩, ⟨1000000, 0, le_rfl⟩]

def oneDroppedResult : ResultLine where
  key := { mode := some (ascii "async_both"), testCase := some (ascii "one_string_ten_int64") }
  completed := 1000000
  dropped := 0
  payloadBytes := some (ascii "91")
  hotP50 := 20
  hotP99 := 60
  workerP50 := 190
  workerP99 := 300
  workerMps := 5

def oneDroppedLine : MatrixLine where
  key := oneDroppedResult.key
  armHot := (20, 60)
  amdHot := (20, 60)
  armWorker := (190, 300)
  amdWorker := (190, 300)
  armMps := 5
  amdMps := 5
  armDrops := 0
  amdDrops := 0

def oneDroppedReport : Report where
  iterations := ascii "?"
  repetitions := ascii "?"
  warmupIterations := ascii "?"
  queueCapacity := ascii "?"
  handoffModel := ascii "?"
  results := [oneDroppedResult]

theorem oneDropped_report : asyncPipelineReport oneDropped [] = .ok oneDroppedReport :=
  eq_ok_of_toOption (by decide +kernel)

theorem oneDropped_matrix : asyncPipelineMatrix (some oneDropped) (some oneDropped) =
    .ok (some [oneDroppedLine]) := eq_ok_of_toOption (by decide +kernel)

theorem oneDropped_recorded :
    Recorded oneDroppedRepetitions (withKey keyOf oneDropped.rows oneDroppedResult.key) :=
  .cons ⟨rfl, rfl⟩ (.cons ⟨rfl, rfl⟩ (.cons ⟨rfl, rfl⟩ .nil))

theorem losses_shown_iff_oneDropped :
    (((oneDroppedResult.dropped = 0 ↔
          ∀ repetition ∈ oneDroppedRepetitions, repetition.dropped = 0) ↔
        DropsShow oneDroppedRepetitions) ∧
      ((oneDroppedResult.completed = (1000000 : ℕ) →
          ∀ repetition ∈ oneDroppedRepetitions, repetition.completed = 1000000) ↔
        ShortfallsShow oneDroppedRepetitions)) ∧
    ((oneDroppedLine.armDrops = 0 ↔
        ∀ repetition ∈ oneDroppedRepetitions, repetition.dropped = 0) ↔
      DropsShow oneDroppedRepetitions) ∧
    ((oneDroppedLine.amdDrops = 0 ↔
        ∀ repetition ∈ oneDroppedRepetitions, repetition.dropped = 0) ↔
      DropsShow oneDroppedRepetitions) :=
  losses_shown_iff oneDropped_report List.mem_cons_self oneDropped_recorded oneDropped_matrix
    List.mem_cons_self oneDropped_recorded oneDropped_recorded

/-- Both reports print no drops and a full count for these repetitions. -/
theorem oneDropped_averaged_away :
    asyncPipelineReport oneDropped [] = .ok oneDroppedReport ∧
    asyncPipelineMatrix (some oneDropped) (some oneDropped) = .ok (some [oneDroppedLine]) ∧
    Recorded oneDroppedRepetitions (withKey keyOf oneDropped.rows oneDroppedResult.key) ∧
    ¬ (oneDroppedResult.dropped = 0 ↔
      ∀ repetition ∈ oneDroppedRepetitions, repetition.dropped = 0) ∧
    ¬ (oneDroppedLine.armDrops = 0 ↔
      ∀ repetition ∈ oneDroppedRepetitions, repetition.dropped = 0) ∧
    ¬ (oneDroppedResult.completed = (1000000 : ℕ) →
      ∀ repetition ∈ oneDroppedRepetitions, repetition.completed = 1000000) := by
  have hdrops : ¬ ∀ repetition ∈ oneDroppedRepetitions, repetition.dropped = 0 := by
    simp [oneDroppedRepetitions]
  have hcompleted : ¬ ∀ repetition ∈ oneDroppedRepetitions, repetition.completed = 1000000 := by
    simp [oneDroppedRepetitions]
  refine ⟨oneDropped_report, oneDropped_matrix, oneDropped_recorded, ?_, ?_, ?_⟩
  · intro h
    exact hdrops (h.mp rfl)
  · intro h
    exact hdrops (h.mp rfl)
  · intro h
    exact hcompleted (h rfl)

end Reports

end ProtobufKafkaBench.AsyncReports

import ProtobufKafkaBench.CsvReaders
import ProtobufKafkaBench.MeanThroughput
import ProtobufKafkaBench.MergeAndReport
import ProtobufKafkaBench.SchemaEvolution

/-!
The report on schema evolution, and what it says about a run of the benchmark. It has one line for
each phase, whatever came back in the run: a failed registration shows among the status codes of
its phase, and nowhere else.
-/
namespace ProtobufKafkaBench.EvolutionReport

open AsyncReports ByteBuffers CompilerReport CsvReaders CsvTables EncodingReports Exceptions
open Dialogues Grouping HttpSessions MarketEvents SchemaEvolution
open KafkaReports (readMetadata)
open SchemaRegistry (HttpResult)

section Report

structure Line where
  phase : Option Bytes
  repetitions : ℕ
  statuses : List Bytes
  median : ℚ
  mean : ℚ
  p95 : ℚ
  bytes : ℚ

/-- `ordered[min(len(ordered) - 1, int(len(ordered) * .95))]`. -/
def p95 (samples : List ℚ) : Option ℚ :=
  NearestRanks.orderStatistic samples (min (samples.length - 1) (samples.length * 95 / 100))

/-- `', '.join` takes texts only. -/
def joined (texts : List (Option Bytes)) : Except PyError (List Bytes) :=
  texts.mapM fun
    | none => .error .typeError
    | some text => .ok text

def line (group : Option Bytes × List DictRow) : Except PyError Line := do
  let samples ← floats group.2 (ascii "elapsed_ns")
  let p95 ← statistic (p95 samples)
  let statuses ← joined (← sortedTexts (← group.2.mapM fun row => row.item (ascii "status")))
  let median ← statistic (Medians.median samples)
  let mean ← statistic (Means.mean samples)
  let counts ← group.2.mapM fun row => row.intItem (ascii "bytes")
  let bytes ← statistic (Medians.median (counts.map fun count : ℤ => (count : ℚ)))
  return { phase := group.1, repetitions := group.2.length, statuses, median, mean, p95, bytes }

structure Report where
  repetitions : Bytes
  lines : List Line

/-- `main` of the report. -/
def report (csv : CsvFile) (metadata : Bytes) : Except PyError Report := do
  let groups ← groupRowsM (fun row => row.item (ascii "phase")) csv.rows
  if groups.all fun a => groups.all fun b => ordered a.1 b.1 then
    let lines ← (groups.insertionSort fun a b => a.1.getD [] ≤ b.1.getD []).mapM line
    return { repetitions := (readMetadata metadata (ascii "repetitions")).getD (ascii "?"), lines }
  else .error .typeError

end Report

section Tables

def rowOfOutput : Output → Option Row
  | .row row => some row
  | .complaint _ _ _ => none

/-- The rows that have been written to the table. -/
def rows (trace : List (HttpEvent Request Output)) : List Row :=
  (lines trace).filterMap rowOfOutput

def header : List Bytes :=
  [ascii "phase", ascii "repetition", ascii "status", ascii "bytes", ascii "elapsed_ns"]

def record (row : Row) : List Bytes :=
  [row.phase, decimalDigits row.repetition, decimalText row.status.toInt, decimalDigits row.bytes,
    row.elapsed]

/-- The text of a row, as `write_row` puts it together. -/
def rowText (row : Row) : Bytes :=
  row.phase ++ ascii "," ++ decimalDigits row.repetition ++ ascii "," ++
    decimalText row.status.toInt ++ ascii "," ++ decimalDigits row.bytes ++ ascii "," ++
    row.elapsed ++ ascii "\n"

/-- The table after the events of the trace. -/
def csvText (trace : List (HttpEvent Request Output)) : Bytes :=
  ascii "phase,repetition,status,bytes,elapsed_ns\n" ++ (rows trace).flatMap rowText

theorem rowText_eq (row : Row) : rowText row = recordText (record row) := by
  simp [rowText, recordText, record, ascii, List.intercalate_cons_cons]

theorem csvText_eq (trace : List (HttpEvent Request Output)) :
    csvText trace = (header :: (rows trace).map record).flatMap recordText := by
  have hheader : ascii "phase,repetition,status,bytes,elapsed_ns\n" = recordText header := by decide
  rw [csvText, hheader, List.flatMap_cons, List.flatMap_map]
  exact congrArg (fun text => _ ++ (rows trace).flatMap text) (funext rowText_eq)

end Tables

section Runs

variable {config : Config} {schemas : Schemas} {reply : Order → Reply}

/-- The clock's text is that of a number. -/
def Legible (timing : Timing) : Prop :=
  PlainField timing.elapsed ∧ (pyFloat timing.elapsed).isSome

def repetitions (config : Config) : List ℕ := List.range' 1 config.repetitions.toNat

/-- All times of the run are numbers. -/
def LegibleReplies (config : Config) (reply : Order → Reply) : Prop :=
  ∀ phase, ∀ repetition ∈ repetitions config, Legible (reply (.perform phase repetition)).2

def replyRow (reply : Order → Reply) (phase : Phase) (repetition : ℕ) : Row :=
  let answer := reply (.perform phase repetition)
  rowOf phase.name repetition answer.2 answer.1

def orderRows (reply : Order → Reply) : Order → List Row
  | .acquire _ => []
  | .perform phase repetition => [replyRow reply phase repetition]

/-- Each repetition has a row for each of its phases. -/
theorem rows_wholeRun : rows (wholeRun config schemas reply) =
    (repetitions config).flatMap fun repetition =>
      phases.map fun phase => replyRow reply phase repetition := by
  have hpiece : ∀ order : Order, ((order.piece config schemas (reply order)).filterMap
      lineOf).filterMap rowOfOutput = orderRows reply order := by
    intro order
    cases order with
    | acquire repetition => rfl
    | perform phase repetition =>
      simp only [Order.piece, outputs, orderRows]
      split <;> rfl
  unfold rows lines wholeRun agenda
  rw [List.flatMap_assoc, List.filterMap_flatMap, List.filterMap_flatMap]
  refine List.flatMap_congr fun repetition _ => ?_
  rw [List.filterMap_flatMap, List.filterMap_flatMap,
    List.flatMap_congr fun order _ => hpiece order]
  rfl

/-- The fields of a row under their names. -/
theorem dictRow_record (row : Row) :
    (dictRow header (record row)).item (ascii "phase") = .ok (some row.phase) ∧
      (dictRow header (record row)).item (ascii "status") =
        .ok (some (decimalText row.status.toInt)) ∧
      (dictRow header (record row)).item (ascii "bytes") = .ok (some (decimalDigits row.bytes)) ∧
      (dictRow header (record row)).item (ascii "elapsed_ns") = .ok (some row.elapsed) :=
  ⟨rfl, rfl, rfl, rfl⟩

theorem phase_plain (phase : Phase) : PlainField phase.name := by
  cases phase <;> exact plainField_of_all (by decide)

theorem record_plain {phase : Phase} {repetition : ℕ}
    (h : Legible (reply (.perform phase repetition)).2) :
    PlainRecord (record (replyRow reply phase repetition)) := by
  refine ⟨List.cons_ne_nil _ _, by simp [record], ?_⟩
  simp only [record, List.forall_mem_cons]
  exact ⟨phase_plain phase, plainField_decimalDigits _, plainField_decimalText _,
    plainField_decimalDigits _, h.1, fun _ h => absurd h List.not_mem_nil⟩

theorem header_plain : PlainRecord header :=
  plainRecord_of_all (by decide) (by decide +kernel)

/-- The rows as the report gets them. -/
theorem readTable_wholeRun (h : LegibleReplies config reply) :
    readTable (csvText (wholeRun config schemas reply)) =
      some ⟨header, (rows (wholeRun config schemas reply)).map record⟩ := by
  rw [csvText_eq]
  refine readTable_text header_plain ?_
  intro fields hfields
  obtain ⟨row, hrow, rfl⟩ := List.mem_map.mp hfields
  rw [rows_wholeRun] at hrow
  obtain ⟨repetition, hrepetition, hrow⟩ := List.mem_flatMap.mp hrow
  obtain ⟨phase, -, rfl⟩ := List.mem_map.mp hrow
  exact record_plain (h phase repetition hrepetition)

theorem phase_name_injective : Function.Injective Phase.name := by
  intro first second h
  cases first <;> cases second <;> first | rfl | exact absurd h (by decide)

/-- The rows of a phase. -/
theorem withKey_phase (phase : Phase) :
    withKey (fun row : Row => some row.phase) ((repetitions config).flatMap fun repetition =>
      phases.map fun phase => replyRow reply phase repetition) (some phase.name) =
      (repetitions config).map (replyRow reply phase) := by
  have hround : ∀ repetition, withKey (fun row : Row => some row.phase)
      (phases.map fun phase => replyRow reply phase repetition) (some phase.name) =
        [replyRow reply phase repetition] := by
    intro repetition
    have hkeys : ∀ other ∈ phases, ((fun row : Row => decide (some row.phase = some phase.name)) ∘
        fun phase => replyRow reply phase repetition) other = decide (other = phase) := by
      intro other _
      refine decide_eq_decide.mpr ?_
      rw [Option.some_inj]
      exact phase_name_injective.eq_iff
    have hone : (phases.filter fun other => decide (other = phase)) = [phase] := by
      cases phase <;> rfl
    unfold withKey
    rw [List.filter_map, List.filter_congr hkeys, hone]
    rfl
  unfold withKey at hround ⊢
  rw [List.filter_flatMap, List.flatMap_congr fun repetition _ => hround repetition,
    ← List.map_eq_flatMap]

/-- The phases in order of their first rows, each with its rows. -/
theorem groups_wholeRun (hrepetitions : 0 < config.repetitions.toNat) :
    groupRows (fun row : Row => some row.phase) (rows (wholeRun config schemas reply)) =
      phases.map fun phase =>
        (some phase.name, (repetitions config).map (replyRow reply phase)) := by
  let round : ℕ → List Row := fun repetition =>
    phases.map fun phase => replyRow reply phase repetition
  have hkeys : ∀ repetition, (round repetition).map (fun row => some row.phase) =
      phases.map fun phase => some phase.name := fun _ => rfl
  obtain ⟨n, hn⟩ := Nat.exists_eq_add_of_lt hrepetitions
  have hrows : (repetitions config).flatMap round =
      round 1 ++ (List.range' 2 n).flatMap round := by
    rw [repetitions, hn, Nat.zero_add, List.range'_succ, List.flatMap_cons]
  rw [rows_wholeRun]
  change groupRows _ ((repetitions config).flatMap round) = _
  rw [groupRows_eq, hrows, keys_groupRows_append, keys_groupRows_of_nodup, ← hrows, hkeys,
    List.map_map]
  · exact List.map_congr_left fun phase _ => Prod.ext rfl (withKey_phase phase)
  · rw [hkeys]
    decide
  · intro row hrow
    obtain ⟨repetition, -, hrow⟩ := List.mem_flatMap.mp hrow
    rw [hkeys, ← hkeys repetition]
    exact List.mem_map_of_mem hrow

end Runs

section Lines

variable {config : Config} {schemas : Schemas} {reply : Order → Reply}

/-- The times of a phase. -/
def times (config : Config) (reply : Order → Reply) (phase : Phase) : List ℚ :=
  (repetitions config).map fun repetition =>
    (pyFloat (reply (.perform phase repetition)).2.elapsed).getD 0

def sizes (config : Config) (reply : Order → Reply) (phase : Phase) : List ℚ :=
  (repetitions config).map fun repetition =>
    ((reply (.perform phase repetition)).1.body.length : ℚ)

/-- The line is about all replies of its phase: it has one status code for all that came back
with it, and its times are taken over all repetitions. -/
structure Summarizes (config : Config) (reply : Order → Reply) (phase : Phase) (line : Line) :
    Prop where
  named : line.phase = some phase.name
  counted : line.repetitions = config.repetitions.toNat
  statuses : ∀ text, text ∈ line.statuses ↔ ∃ repetition ∈ repetitions config,
    text = decimalText (reply (.perform phase repetition)).1.status.toInt
  once : line.statuses.Nodup
  middle : Medians.median (times config reply phase) = some line.median
  average : Means.mean (times config reply phase) = some line.mean
  tail : p95 (times config reply phase) = some line.p95
  size : Medians.median (sizes config reply phase) = some line.bytes

theorem statistic_some {value : Option ℚ} (h : value.isSome) :
    ∃ q, value = some q ∧ statistic value = .ok q := by
  obtain ⟨q, rfl⟩ := Option.isSome_iff_exists.mp h
  exact ⟨q, rfl, rfl⟩

theorem median_isSome {values : List ℚ} (h : values ≠ []) : (Medians.median values).isSome := by
  rw [Medians.median_eq h]
  rfl

theorem mean_isSome {values : List ℚ} (h : values ≠ []) : (Means.mean values).isSome := by
  cases values with
  | nil => exact absurd rfl h
  | cons first rest => rfl

theorem p95_isSome {values : List ℚ} (h : values ≠ []) : (p95 values).isSome := by
  have hlength := List.length_pos_iff.mpr h
  have hindex : min (values.length - 1) (values.length * 95 / 100) < values.length := by omega
  obtain ⟨value, hvalue⟩ := NearestRanks.orderStatistic_isSome hindex
  rw [p95, hvalue]
  rfl

/-- Texts can be sorted and joined. -/
theorem joined_sortedTexts (texts : List Bytes) : ∃ sorted,
    sortedTexts (texts.map some) = .ok (sorted.map some) ∧ joined (sorted.map some) = .ok sorted ∧
      sorted.Nodup ∧ ∀ text, text ∈ sorted ↔ text ∈ texts := by
  have hordered : ((texts.map some).all fun a =>
      (texts.map some).all fun b => ordered a b) = true := by
    simp [ordered]
  have hsorted : sortedTexts (texts.map some) =
      .ok ((texts.map some).dedup.insertionSort fun a b => a.getD [] ≤ b.getD []) := by
    unfold sortedTexts
    rw [if_pos hordered]
    rfl
  have hsome : ∀ text ∈ (texts.map some).dedup.insertionSort fun a b => a.getD [] ≤ b.getD [],
      some (text.getD []) = text := by
    intro text htext
    rw [mem_sortedTexts hsorted] at htext
    obtain ⟨plain, -, rfl⟩ := List.mem_map.mp htext
    rfl
  let sorted := ((texts.map some).dedup.insertionSort fun a b => a.getD [] ≤ b.getD []).map
    fun text => text.getD []
  have hback : sorted.map some =
      (texts.map some).dedup.insertionSort fun a b => a.getD [] ≤ b.getD [] := by
    rw [List.map_map]
    exact (List.map_congr_left hsome).trans (List.map_id _)
  refine ⟨sorted, hback ▸ hsorted, ?_, ?_, fun text => ?_⟩
  · unfold joined
    rw [mapM_eq_ok, List.map_map]
    rfl
  · have hnodup : (sorted.map some).Nodup := by
      rw [hback, (List.perm_insertionSort _ _).nodup_iff]
      exact List.nodup_dedup _
    exact hnodup.of_map some
  · have hmem := mem_sortedTexts hsorted (some text)
    rw [← hback, List.mem_map_of_injective (Option.some_injective _),
      List.mem_map_of_injective (Option.some_injective _)] at hmem
    exact hmem

/-- The line of a phase. -/
theorem line_phase (hrepetitions : 0 < config.repetitions.toNat) (h : LegibleReplies config reply)
    (phase : Phase) :
    ∃ result, line (some phase.name, ((repetitions config).map (replyRow reply phase)).map
      fun row => dictRow header (record row)) = .ok result ∧
        Summarizes config reply phase result := by
  have hne : repetitions config ≠ [] := by
    rw [← List.length_pos_iff, repetitions, List.length_range']
    exact hrepetitions
  have hread : ∀ {α : Type} (read : DictRow → Except PyError α) (value : ℕ → α),
      (∀ repetition ∈ repetitions config,
        read (dictRow header (record (replyRow reply phase repetition))) =
          .ok (value repetition)) →
      (((repetitions config).map (replyRow reply phase)).map
        fun row => dictRow header (record row)).mapM read =
          .ok ((repetitions config).map value) := by
    intro α read value hvalue
    rw [mapM_eq_ok, List.map_map, List.map_map, List.map_map]
    exact List.map_congr_left hvalue
  have htimes : floats (((repetitions config).map (replyRow reply phase)).map
      fun row => dictRow header (record row)) (ascii "elapsed_ns") =
        .ok (times config reply phase) := by
    refine hread _ _ fun repetition hrepetition => ?_
    obtain ⟨q, hq⟩ := Option.isSome_iff_exists.mp (h phase repetition hrepetition).2
    rw [hq, Option.getD_some]
    exact floatItem_of_item (dictRow_record _).2.2.2 hq
  have hstatuses := hread (fun row => row.item (ascii "status"))
    (fun repetition => some (decimalText (reply (.perform phase repetition)).1.status.toInt))
    fun _ _ => rfl
  have hcounts := hread (fun row => row.intItem (ascii "bytes"))
    (fun repetition => ((reply (.perform phase repetition)).1.body.length : ℤ)) fun _ _ =>
      intItem_of_item (dictRow_record _).2.2.1 (pyInt_decimalDigits _)
  have htimesNe : times config reply phase ≠ [] := List.map_eq_nil_iff.not.mpr hne
  have hsizesNe : sizes config reply phase ≠ [] := List.map_eq_nil_iff.not.mpr hne
  obtain ⟨tail, htail, htailOk⟩ := statistic_some (p95_isSome htimesNe)
  obtain ⟨median, hmedian, hmedianOk⟩ := statistic_some (median_isSome htimesNe)
  obtain ⟨mean, hmean, hmeanOk⟩ := statistic_some (mean_isSome htimesNe)
  obtain ⟨size, hsize, hsizeOk⟩ := statistic_some (median_isSome hsizesNe)
  obtain ⟨sorted, hsorted, hjoined, hnodup, hmem⟩ := joined_sortedTexts
    ((repetitions config).map fun repetition =>
      decimalText (reply (.perform phase repetition)).1.status.toInt)
  have hcast : ((repetitions config).map fun repetition =>
      ((reply (.perform phase repetition)).1.body.length : ℤ)).map (fun count : ℤ => (count : ℚ)) =
        sizes config reply phase := by
    rw [List.map_map]
    exact List.map_congr_left fun _ _ => Int.cast_natCast _
  rw [List.map_map] at hsorted
  have hlength : (((repetitions config).map (replyRow reply phase)).map
      fun row => dictRow header (record row)).length = config.repetitions.toNat := by
    simp [repetitions]
  refine ⟨⟨some phase.name, config.repetitions.toNat, sorted, median, mean, tail, size⟩, ?_,
    rfl, rfl, fun text => ?_, hnodup, hmedian, hmean, htail, hsize⟩
  · refine bind_eq_ok.mpr ⟨_, htimes, bind_eq_ok.mpr ⟨tail, htailOk, ?_⟩⟩
    refine bind_eq_ok.mpr ⟨_, hstatuses, bind_eq_ok.mpr ⟨_, hsorted, ?_⟩⟩
    refine bind_eq_ok.mpr ⟨sorted, hjoined, bind_eq_ok.mpr ⟨median, hmedianOk, ?_⟩⟩
    refine bind_eq_ok.mpr ⟨mean, hmeanOk, bind_eq_ok.mpr ⟨_, hcounts, ?_⟩⟩
    refine bind_eq_ok.mpr ⟨size, hcast ▸ hsizeOk, ?_⟩
    exact congrArg (fun n => Except.ok (Line.mk _ n _ _ _ _ _)) hlength
  · rw [hmem, List.mem_map]
    exact ⟨fun ⟨repetition, hr, heq⟩ => ⟨repetition, hr, heq.symm⟩,
      fun ⟨repetition, hr, heq⟩ => ⟨repetition, hr, heq.symm⟩⟩

theorem readMetadata_repetitions (config : Config) :
    readMetadata (metadataText config) (ascii "repetitions") =
      some (decimalDigits config.repetitions.toNat) := by
  let entries : List (Bytes × Bytes) :=
    [(ascii "repetitions", decimalDigits config.repetitions.toNat),
      (ascii "v1_schema", ascii "proto/google_speed/market.proto"),
      (ascii "v2_schema", ascii "schemas/schema_evolution/market_v2.proto")]
  have htext : metadataText config = KafkaReports.metadataText entries := by
    simp [metadataText, KafkaReports.metadataText, entries, ascii]
  have hclean : ∀ entry ∈ entries, KafkaReports.Clean entry :=
    List.forall_mem_cons.mpr ⟨KafkaReports.clean_decimalDigits (by decide)
      (KafkaReports.no_line_break (by decide)) _,
      List.forall_mem_cons.mpr ⟨⟨by decide, KafkaReports.no_line_break (by decide)⟩,
        List.forall_mem_cons.mpr ⟨⟨by decide, KafkaReports.no_line_break (by decide)⟩,
          fun _ h => absurd h List.not_mem_nil⟩⟩⟩
  rw [htext, KafkaReports.readMetadata_metadataText hclean]
  rfl

theorem ordered_phases (rows : Phase → List DictRow) :
    ((phases.map fun phase => (some phase.name, rows phase)).all fun a =>
      (phases.map fun phase => (some phase.name, rows phase)).all fun b =>
        ordered a.1 b.1) = true :=
  rfl

/-- The report sorts the phases by their names. -/
theorem sorted_phases (rows : Phase → List DictRow) :
    ((phases.map fun phase => (some phase.name, rows phase)).insertionSort
      fun a b => a.1.getD [] ≤ b.1.getD []) =
      [Phase.lookupVersions, .registerV1, .registerV2].map
        fun phase => (some phase.name, rows phase) := by
  have hlookup : ¬ Phase.registerV1.name ≤ Phase.lookupVersions.name := by decide
  have hfirst : Phase.registerV1.name ≤ Phase.registerV2.name := by decide
  have hsecond : ¬ Phase.registerV2.name ≤ Phase.lookupVersions.name := by decide
  simp [phases, List.insertionSort, List.orderedInsert, hlookup, hfirst, hsecond]

/-- Whatever the registry answered in a run of the benchmark, its table is read and reported: one
line for each phase, and in it every status code that came back. -/
theorem evolution_reported {args : List Bytes} {fuel : ℕ}
    {trace : List (HttpEvent Request Output)} (hconfig : parseArgs args = .ok config)
    (hrepetitions : config.repetitions ≠ BitVec.allOnes 32)
    (play : Plays (main config schemas fuel) trace (.returned ()))
    (hclock : ∀ timing, timed timing ∈ trace → Legible timing) :
    ∃ reply table lookup first second, trace = wholeRun config schemas reply ∧
      readTable (csvText trace) = some table ∧
      report table (metadataText config) =
        .ok ⟨decimalDigits config.repetitions.toNat, [lookup, first, second]⟩ ∧
      Summarizes config reply .lookupVersions lookup ∧
      Summarizes config reply .registerV1 first ∧ Summarizes config reply .registerV2 second := by
  obtain ⟨reply, rfl⟩ := play_fits hrepetitions play
  have hpositive : 0 < config.repetitions.toNat := by
    have hminimum := repetitions_of_parseArgs hconfig
    omega
  have h : LegibleReplies config reply := by
    intro phase repetition hrepetition
    refine hclock _ (List.mem_flatMap.mpr ⟨.perform phase repetition, ?_, ?_⟩)
    · refine List.mem_flatMap.mpr ⟨repetition, hrepetition, ?_⟩
      exact mem_repetitionAgenda.mpr (.inr ⟨phase, rfl⟩)
    · exact List.mem_cons_of_mem _ List.mem_cons_self
  obtain ⟨first, hfirst, hfirstSum⟩ := line_phase hpositive h .registerV1
  obtain ⟨second, hsecond, hsecondSum⟩ := line_phase hpositive h .registerV2
  obtain ⟨lookup, hlookup, hlookupSum⟩ := line_phase hpositive h .lookupVersions
  refine ⟨reply, _, lookup, first, second, rfl, readTable_wholeRun h, ?_, hlookupSum, hfirstSum,
    hsecondSum⟩
  let read : Row → DictRow := fun row => dictRow header (record row)
  let key : DictRow → Option Bytes := fun row => (row.item (ascii "phase")).toOption.getD none
  have hrows : CsvFile.rows ⟨header, (rows (wholeRun config schemas reply)).map record⟩ =
      (rows (wholeRun config schemas reply)).map read := List.map_map
  have hgroups : groupRowsM (fun row : DictRow => row.item (ascii "phase"))
      ((rows (wholeRun config schemas reply)).map read) =
        .ok (phases.map fun phase => (some phase.name,
          ((repetitions config).map (replyRow reply phase)).map read)) := by
    have hok : ∀ row ∈ (rows (wholeRun config schemas reply)).map read,
        row.item (ascii "phase") = .ok (key row) := by
      intro row hrow
      obtain ⟨source, -, rfl⟩ := List.mem_map.mp hrow
      rfl
    have hkey : (fun row => key (read row)) = fun row : Row => some row.phase := rfl
    rw [groupRowsM_ok hok, groupRows_map, hkey, groups_wholeRun hpositive, List.map_map]
    rfl
  refine bind_eq_ok.mpr ⟨_, hrows ▸ hgroups, ?_⟩
  rw [if_pos (ordered_phases _), sorted_phases, readMetadata_repetitions]
  refine bind_eq_ok.mpr ⟨[lookup, first, second], ?_, rfl⟩
  exact mapM_eq_ok.mpr (congrArg₂ _ hlookup (congrArg₂ _ hfirst (congrArg₂ _ hsecond rfl)))

/-- A run in which every request is refused. -/
theorem evolution_reported_refused : ∃ table lookup first second,
    readTable (csvText (wholeRun {} ⟨ascii "v1", ascii "v2"⟩
      fun _ => (⟨409, []⟩, ⟨ascii "1.000", [], []⟩))) = some table ∧
    report table (metadataText {}) = .ok ⟨ascii "10", [lookup, first, second]⟩ := by
  have hconfig : parseArgs [] = .ok {} := rfl
  have hlegible : Legible ⟨ascii "1.000", [], []⟩ := ⟨plainField_of_all (by decide), by decide⟩
  have hclock : ∀ timing, timed timing ∈ wholeRun {} ⟨ascii "v1", ascii "v2"⟩
      (fun _ => (⟨409, []⟩, ⟨ascii "1.000", [], []⟩)) → Legible timing := by
    intro timing htimed
    obtain ⟨order, -, hpiece⟩ := List.mem_flatMap.mp htimed
    cases order with
    | acquire repetition => simp [Order.piece] at hpiece
    | perform phase repetition =>
      simp [Order.piece] at hpiece
      exact hpiece ▸ hlegible
  obtain ⟨reply, table, lookup, first, second, -, htable, hreport, -⟩ :=
    evolution_reported hconfig (by decide) (plays_wholeRun (by decide) _) hclock
  exact ⟨table, lookup, first, second, htable, hreport⟩

end Lines

end ProtobufKafkaBench.EvolutionReport

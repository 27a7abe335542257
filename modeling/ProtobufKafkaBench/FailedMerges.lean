import ProtobufKafkaBench.MergeAndReport
import ProtobufKafkaBench.KeyedMembers
import Mathlib.Data.List.TakeWhile

/-!
What a merge leaves behind. The table is opened for writing, which empties it,
after every file has been checked; but the checks do not look at the length of a
record, and the writer refuses surplus values. Then the new table ends before the
refused row, and the metadata is still the old one.
-/
namespace ProtobufKafkaBench.KafkaReports

open Exceptions ByteBuffers CsvTables CsvWriters

section Records

variable {header record : List Bytes}

def fits (header record : List Bytes) : Bool := record.length ≤ header.length

/-- A record with empty texts for its missing values. -/
def padded (header record : List Bytes) : List Bytes :=
  record ++ List.replicate (header.length - record.length) []

/-- Columns of one name hold the same text. -/
def SameNamedAgree (header record : List Bytes) : Prop :=
  ∀ i < header.length, ∀ j < header.length, header[i]? = header[j]? →
    (padded header record)[i]? = (padded header record)[j]?

/-- What the writer makes of a record that fits. -/
def rewritten (header record : List Bytes) : List Bytes :=
  header.map fun name => (((dictRow header record).lookup name).getD none).getD []

theorem written_eq (header record : List Bytes) :
    (dictRow header record).written header =
      if fits header record then .ok (rewritten header record) else .error .valueError := by
  have hsurplus : (dictRow header record).surplus = [] ↔ fits header record = true := by
    rw [dictRow, List.drop_eq_nil_iff, fits, decide_eq_true_eq]
  unfold DictRow.written
  by_cases hfits : fits header record = true
  · rw [if_pos (hsurplus.mpr hfits), if_pos hfits]
    rfl
  · rw [if_neg (hsurplus.not.mpr hfits), if_neg hfits]

theorem padded_length (h : fits header record = true) :
    (padded header record).length = header.length := by
  rw [fits, decide_eq_true_eq] at h
  rw [padded, List.length_append, List.length_replicate]
  omega

theorem fields_column (h : fits header record = true) :
    (dictRow header record).fields.map Prod.fst = header ∧
      (dictRow header record).fields.map (fun field => field.2.getD []) =
        padded header record := by
  rw [fits, decide_eq_true_eq] at h
  have hlength : (record.map some ++
      List.replicate (header.length - record.length) (none : Option Bytes)).length =
        header.length := by
    rw [List.length_append, List.length_map, List.length_replicate]
    omega
  constructor
  · exact List.map_fst_zip hlength.ge
  · have hsecond : (dictRow header record).fields.map Prod.snd = _ :=
      List.map_snd_zip hlength.le
    have hcompose : (fun field : Bytes × Option Bytes => field.2.getD []) =
        (fun value => value.getD []) ∘ Prod.snd := rfl
    rw [hcompose, ← List.map_map, hsecond, List.map_append, List.map_map, List.map_replicate,
      padded]
    simp [Function.comp_def]

/-- The writer looks a value up under a name, and finds that of a column with it. -/
theorem lookup_column (h : fits header record = true) {i : ℕ} (hi : i < header.length) :
    ∃ j < header.length, header[i]? = header[j]? ∧
      some ((((dictRow header record).lookup header[i]).getD none).getD []) =
        (padded header record)[j]? := by
  obtain ⟨hnames, hvalues⟩ := fields_column h
  have hcount : (dictRow header record).fields.length = header.length := by
    rw [← List.length_map Prod.fst, hnames]
  have hfields : ∀ j (hj : j < (dictRow header record).fields.length),
      header[j]? = some (dictRow header record).fields[j].1 ∧
        (padded header record)[j]? = some ((dictRow header record).fields[j].2.getD []) := by
    intro j hj
    constructor
    · conv_lhs => rw [← hnames]
      rw [List.getElem?_map, List.getElem?_eq_getElem hj]
      rfl
    · rw [← hvalues, List.getElem?_map, List.getElem?_eq_getElem hj]
      rfl
  cases hlookup : (dictRow header record).lookup header[i] with
  | none =>
    have hmem := List.getElem_mem (show i < (dictRow header record).fields.length by omega)
    have hnone := List.lookup_eq_none_iff.mp hlookup _ (List.mem_reverse.mpr hmem)
    have hname := (hfields i (by omega)).1
    rw [List.getElem?_eq_getElem hi] at hname
    rw [← Option.some.inj hname] at hnone
    simp at hnone
  | some value =>
    have hmem := List.mem_reverse.mp (KeyedMembers.mem_of_lookup hlookup)
    obtain ⟨j, hj, heq⟩ := List.mem_iff_getElem.mp hmem
    obtain ⟨hname, hvalue⟩ := hfields j hj
    rw [heq] at hname hvalue
    refine ⟨j, by omega, ?_, hvalue.symm⟩
    rw [List.getElem?_eq_getElem hi]
    exact hname.symm

/-- A record comes out as it went in, padded, exactly if columns of one name agree. -/
theorem rewritten_eq_iff (h : fits header record = true) :
    rewritten header record = padded header record ↔ SameNamedAgree header record := by
  have hlength := padded_length h
  have hcolumn : ∀ i (hi : i < header.length), (rewritten header record)[i]? =
      some ((((dictRow header record).lookup header[i]).getD none).getD []) := by
    intro i hi
    rw [rewritten, List.getElem?_map, List.getElem?_eq_getElem hi]
    rfl
  constructor
  · intro heq i hi j hj hname
    rw [← heq, hcolumn i hi, hcolumn j hj]
    rw [List.getElem?_eq_getElem hi, List.getElem?_eq_getElem hj] at hname
    rw [Option.some.inj hname]
  · intro hagree
    apply List.ext_getElem?
    intro i
    by_cases hi : i < header.length
    · obtain ⟨j, hj, hname, hvalue⟩ := lookup_column h hi
      rw [hcolumn i hi, hvalue, hagree i hi j hj hname]
    · rw [List.getElem?_eq_none (by rw [rewritten, List.length_map]; omega),
        List.getElem?_eq_none (by omega)]

/-- The lines before the first record that does not fit are written. -/
theorem writeRows_eq (header : List Bytes) (records : List (List Bytes)) :
    writeRows header (records.map (dictRow header)) =
      ((records.takeWhile (fits header)).map (rewritten header),
        if records.all (fits header) then .ok () else .error .valueError) := by
  induction records with
  | nil => rfl
  | cons record rest ih =>
    rw [List.map_cons, writeRows, written_eq, ih]
    by_cases hfits : fits header record = true
    · simp only [hfits, if_true, List.takeWhile_cons, List.map_cons, List.all_cons,
        Bool.true_and]
    · rw [Bool.not_eq_true] at hfits
      simp [hfits]

end Records

section Checks

variable {files : List ShardFile}

/-- The header of the first file, which the others must repeat. -/
def commonHeader (files : List ShardFile) : List Bytes :=
  (files.head?.map fun file => file.csv.header).getD []

/-- What the checks ask of the files. -/
structure Valid (files : List ShardFile) : Prop where
  nonempty : files ≠ []
  headers : ∀ file ∈ files, file.csv.header = commonHeader files
  sets : ∀ file ∈ files, CompleteSet file.csv.rows

theorem collectFile_header {names names' : List Bytes} {file : ShardFile}
    (h : collectFile (some names) file = .ok names') :
    file.csv.header = names ∧ names' = names := by
  by_cases hheader : file.csv.header = names
  · have hnames := (collectFile_ok_iff hheader fun known hknown => by
      exact (Option.some.inj hknown).symm).mp h
    exact ⟨hheader, hnames.2⟩
  · have hmismatch : collectFile (some names) file = .error
        (.systemExit (ascii "CSV header mismatch in " ++ file.path.text)) := by
      unfold collectFile
      simp only [ne_eq, hheader, not_false_eq_true, if_true]
      rfl
    rw [hmismatch] at h
    cases h

theorem collect_headers {names : List Bytes} {rows : List DictRow}
    {result : Option (List Bytes) × List DictRow}
    (h : collect (some names) rows files = .ok result) :
    ∀ file ∈ files, file.csv.header = names := by
  induction files generalizing rows with
  | nil => exact fun _ hmem => absurd hmem List.not_mem_nil
  | cons file rest ih =>
    unfold collect at h
    obtain ⟨names', hfile, hrest⟩ := bind_eq_ok.mp h
    obtain ⟨hheader, rfl⟩ := collectFile_header hfile
    rw [List.forall_mem_cons]
    exact ⟨hheader, ih hrest⟩

/-- The loop over the files ends normally exactly if they are valid, with their rows. -/
theorem collect_eq_ok_iff (hne : files ≠ []) {result : Option (List Bytes) × List DictRow} :
    collect none [] files = .ok result ↔ Valid files ∧
      result = (some (commonHeader files), files.flatMap fun file => file.csv.rows) := by
  have hvalid : (∀ file ∈ files, file.csv.header = commonHeader files) →
      (collect none [] files = .ok result ↔ (∀ file ∈ files, CompleteSet file.csv.rows) ∧
        result = (some (commonHeader files), files.flatMap fun file => file.csv.rows)) := by
    intro hheaders
    have hcollect := @collect_ok_iff files _ hheaders none nofun [] result
    rwa [if_neg hne, List.nil_append] at hcollect
  constructor
  · intro h
    have hheaders : ∀ file ∈ files, file.csv.header = commonHeader files := by
      cases files with
      | nil => exact absurd rfl hne
      | cons file rest =>
        unfold collect at h
        obtain ⟨names, hfile, hrest⟩ := bind_eq_ok.mp h
        have hnames := ((collectFile_ok_iff rfl
          (by intro known hknown; cases hknown)).mp hfile).2
        rw [List.forall_mem_cons]
        refine ⟨rfl, ?_⟩
        intro other hother
        rw [collect_headers hrest other hother, hnames]
        rfl
    obtain ⟨hsets, hresult⟩ := (hvalid hheaders).mp h
    exact ⟨{ nonempty := hne, headers := hheaders, sets := hsets }, hresult⟩
  · intro h
    exact (hvalid h.1.headers).mpr ⟨h.1.sets, h.2⟩

end Checks

section Atomicity

variable {root : Bytes} {files : List ShardFile} {before : Outputs}

def allRecords (files : List ShardFile) : List (List Bytes) :=
  files.flatMap fun file => file.csv.records

/-- The table is the header and every record of every file in order, and the metadata is
that of the files. -/
structure Merged (files : List ShardFile) (after : Outputs) : Prop where
  csv : after.csv =
    tableText (commonHeader files :: (allRecords files).map (padded (commonHeader files)))
  metadata : after.metadata = metadataText (KafkaReports.metadata files)

/-- Either all is done, or there is an error and nothing has changed. -/
def Atomic (files : List ShardFile) (before : Outputs)
    (result : Except PyError Unit × Outputs) : Prop :=
  (result.1 = .ok () ∧ Merged files result.2) ∨
    ((∃ error, result.1 = .error error) ∧ result.2 = before)

theorem mergeFiles_invalid (h : ¬ Valid files) :
    ∃ error, mergeFiles root files before = (.error error, before) := by
  unfold mergeFiles
  by_cases hempty : files = []
  · rw [if_pos hempty]
    exact ⟨_, rfl⟩
  · rw [if_neg hempty]
    cases hcollect : collect none [] files with
    | error error => exact ⟨error, rfl⟩
    | ok result => exact absurd ((collect_eq_ok_iff hempty).mp hcollect).1 h

/-- On valid files the outcome is that of the writer. -/
theorem mergeFiles_valid (h : Valid files) :
    mergeFiles root files before =
      let lines := ((allRecords files).takeWhile (fits (commonHeader files))).map
        (rewritten (commonHeader files))
      if (allRecords files).all (fits (commonHeader files)) then
        (.ok (), { csv := tableText (commonHeader files :: lines)
                   metadata := metadataText (KafkaReports.metadata files) })
      else
        (.error .valueError, { before with csv := tableText (commonHeader files :: lines) }) := by
  have hcollect := (collect_eq_ok_iff h.nonempty).mpr ⟨h, rfl⟩
  have hrows : (files.flatMap fun file => file.csv.rows) =
      (allRecords files).map (dictRow (commonHeader files)) := by
    rw [allRecords, List.map_flatMap]
    apply List.flatMap_congr
    intro file hfile
    rw [CsvFile.rows, h.headers file hfile]
  unfold mergeFiles
  rw [if_neg h.nonempty, hcollect]
  simp only [Option.getD_some, hrows, writeRows_eq]
  by_cases hall : (allRecords files).all (fits (commonHeader files)) = true
  · simp only [hall, if_true]
  · rw [Bool.not_eq_true] at hall
    simp [hall]

theorem atomic_ok_iff {after : Outputs} :
    Atomic files before (.ok (), after) ↔ Merged files after := by
  constructor
  · intro h
    rcases h with ⟨-, hmerged⟩ | ⟨⟨error, herror⟩, -⟩
    · exact hmerged
    · cases herror
  · intro h
    exact Or.inl ⟨rfl, h⟩

theorem atomic_error_iff {error : PyError} {table : Bytes} :
    Atomic files before (.error error, { before with csv := table }) ↔ before.csv = table := by
  constructor
  · intro h
    rcases h with ⟨hok, -⟩ | ⟨-, hsame⟩
    · cases hok
    · rw [← hsame]
  · intro h
    subst h
    exact Or.inr ⟨⟨error, rfl⟩, rfl⟩

theorem merged_iff {header : List Bytes} {records : List (List Bytes)}
    (hheader : commonHeader files = header) (hrecords : allRecords files = records)
    (hfit : ∀ record ∈ records, fits header record = true) :
    Merged files { csv := tableText (header :: records.map (rewritten header))
                   metadata := metadataText (KafkaReports.metadata files) } ↔
      ∀ record ∈ records, SameNamedAgree header record := by
  have hlines : records.map (rewritten header) = records.map (padded header) ↔
      ∀ record ∈ records, SameNamedAgree header record := by
    rw [List.map_inj_left]
    exact forall₂_congr fun record hrecord => rewritten_eq_iff (hfit record hrecord)
  rw [← hlines]
  constructor
  · intro h
    have hcsv := h.csv
    rw [hheader, hrecords] at hcsv
    exact (List.cons.inj (tableText_injective hcsv)).2
  · intro h
    refine { csv := ?_, metadata := rfl }
    rw [hheader, hrecords, ← h]

/-- The merge is all or nothing exactly if the files are refused by the checks, or the
writer takes every record as it is, or the old file happens to be, byte for byte, what the
writer gets done before it refuses. -/
theorem merge_atomic_iff (root : Bytes) (tree : List ShardFile) (before : Outputs) :
    Atomic (shardFiles tree) before (mergeKafkaResults root tree before) ↔
      ¬ Valid (shardFiles tree) ∨
      (∀ record ∈ allRecords (shardFiles tree), fits (commonHeader (shardFiles tree)) record ∧
        SameNamedAgree (commonHeader (shardFiles tree)) record) ∨
      ((∃ record ∈ allRecords (shardFiles tree),
          fits (commonHeader (shardFiles tree)) record = false) ∧
        before.csv = tableText (commonHeader (shardFiles tree) ::
          ((allRecords (shardFiles tree)).takeWhile (fits (commonHeader (shardFiles tree)))).map
            (rewritten (commonHeader (shardFiles tree))))) := by
  rw [mergeKafkaResults]
  generalize shardFiles tree = files
  by_cases hvalid : Valid files
  · rw [mergeFiles_valid hvalid, or_iff_right (not_not.mpr hvalid)]
    generalize hrecords : allRecords files = records
    generalize hheader : commonHeader files = header
    by_cases hall : ∀ record ∈ records, fits header record = true
    · have hnone : ¬ ∃ record ∈ records, fits header record = false := by
        intro h
        obtain ⟨record, hrecord, hfalse⟩ := h
        rw [hall record hrecord] at hfalse
        cases hfalse
      rw [List.takeWhile_eq_self_iff.mpr hall, if_pos (List.all_eq_true.mpr hall), atomic_ok_iff,
        merged_iff hheader hrecords hall, or_iff_left fun h => hnone h.1]
      exact forall₂_congr fun record hrecord => (and_iff_right (hall record hrecord)).symm
    · have hsome : ∃ record ∈ records, fits header record = false := by
        push Not at hall
        obtain ⟨record, hrecord, hfalse⟩ := hall
        exact ⟨record, hrecord, Bool.eq_false_iff.mpr hfalse⟩
      have hnone : ¬ ∀ record ∈ records, fits header record = true ∧
          SameNamedAgree header record := fun h => hall fun record hrecord => (h record hrecord).1
      rw [if_neg (List.all_eq_true.not.mpr hall), atomic_error_iff, or_iff_right hnone,
        and_iff_right hsome]
  · obtain ⟨error, hinvalid⟩ := @mergeFiles_invalid root files before hvalid
    rw [hinvalid]
    exact iff_of_true (Or.inr ⟨⟨error, rfl⟩, rfl⟩) (Or.inl hvalid)

/-- A complete shard whose last record has one value more than the header. -/
def surplusShard : ShardFile where
  path := [ascii "root", ascii "kafka_producer_1.csv"]
  csv := {
    header := ["repetition", "iterations"].map ascii
    records := ((List.range' 1 9).map fun repetition =>
      [decimalDigits repetition, ascii "1000000"]) ++
        [["10", "1000000", "surplus"].map ascii] }

def earlierOutputs : Outputs where
  csv := ascii "repetition,iterations\x0d\n1,1000000\x0d\n"
  metadata := ascii "runs=1\n"

/-- The merge of this shard fails after it has replaced the earlier table. -/
theorem surplusShard_not_atomic :
    ¬ Atomic (shardFiles [surplusShard]) earlierOutputs
      (mergeKafkaResults (ascii "root") [surplusShard] earlierOutputs) := by
  have hfailed :
      (mergeKafkaResults (ascii "root") [surplusShard] earlierOutputs).1.toOption = none ∧
        (mergeKafkaResults (ascii "root") [surplusShard] earlierOutputs).2.csv ≠
          earlierOutputs.csv := by decide +kernel
  intro h
  rcases h with ⟨hok, -⟩ | ⟨-, hsame⟩
  · rw [hok] at hfailed
    cases hfailed.1
  · exact hfailed.2 (congrArg Outputs.csv hsame)

end Atomicity

end ProtobufKafkaBench.KafkaReports

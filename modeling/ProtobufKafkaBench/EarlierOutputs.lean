import ProtobufKafkaBench.FailedMerges

/-!
A merged table left in the results tree. Its name matches the pattern that
selects shards, so the next merge takes it for one more shard: it is refused
unless it holds a single configuration, and then its rows are counted again.
-/
namespace ProtobufKafkaBench.KafkaReports

open Exceptions ByteBuffers CsvTables CsvWriters

section Counting

variable {root : Bytes} {files : List ShardFile} {before after : Outputs}

/-- The records of a merged table. -/
def mergedRecords (files : List ShardFile) : List (List Bytes) :=
  (allRecords files).map (rewritten (commonHeader files))

theorem mergeFiles_ok (h : mergeFiles root files before = (.ok (), after)) :
    Valid files ∧ after = { csv := tableText (commonHeader files :: mergedRecords files)
                            metadata := metadataText (KafkaReports.metadata files) } := by
  by_cases hvalid : Valid files
  · rw [mergeFiles_valid hvalid] at h
    by_cases hall : (allRecords files).all (fits (commonHeader files)) = true
    · simp only [if_pos hall] at h
      rw [List.takeWhile_eq_self_iff.mpr (List.all_eq_true.mp hall)] at h
      exact ⟨hvalid, (Prod.mk.inj h).2.symm⟩
    · simp only [if_neg hall] at h
      cases (Prod.mk.inj h).1
  · obtain ⟨error, hinvalid⟩ := @mergeFiles_invalid root files before hvalid
    rw [hinvalid] at h
    cases (Prod.mk.inj h).1

/-- Ten records for each file. -/
theorem mergedRecords_length (h : Valid files) :
    (mergedRecords files).length = files.length * 10 := by
  rw [mergedRecords, List.length_map, allRecords]
  refine length_flatMap_of_forall fun file hfile => ?_
  rw [← (h.sets file hfile).1, CsvFile.rows, List.length_map]

/-- What a finished merge has written is read back. -/
theorem merged_readable (h : mergeFiles root files before = (.ok (), after)) :
    after.csvFile = some { header := commonHeader files, records := mergedRecords files } := by
  obtain ⟨hvalid, rfl⟩ := mergeFiles_ok h
  refine readTable_tableText fun record hrecord => ?_
  obtain ⟨original, horiginal, rfl⟩ := List.mem_map.mp hrecord
  obtain ⟨file, hfile, -⟩ := List.mem_flatMap.mp horiginal
  have hheader : commonHeader files ≠ [] := by
    refine header_ne_nil (hvalid.sets file hfile) fun row hrow => ?_
    obtain ⟨r, -, rfl⟩ := List.mem_map.mp hrow
    exact ⟨r, by rw [hvalid.headers file hfile]⟩
  rw [rewritten, ne_eq, List.map_eq_nil_iff]
  exact hheader

/-- A finished merge counts its files as runs. -/
theorem merged_runs (h : mergeFiles root files before = (.ok (), after)) :
    readMetadata after.metadata (ascii "runs") = some (decimalDigits files.length) := by
  obtain ⟨-, rfl⟩ := mergeFiles_ok h
  exact readMetadata_metadataText (metadata_clean files) (ascii "runs")

/-- One more file with a shard's name is one more file to merge. -/
theorem shardFiles_cons_length {file : ShardFile} {tree : List ShardFile}
    (hname : isShardName file.path.name = true) :
    (shardFiles (file :: tree)).length = (shardFiles tree).length + 1 := by
  unfold shardFiles
  rw [List.length_mergeSort, List.length_mergeSort, List.filter_cons, if_pos hname,
    List.length_cons]

theorem mem_shardFiles_cons {file : ShardFile} {tree : List ShardFile}
    (hname : isShardName file.path.name = true) : file ∈ shardFiles (file :: tree) := by
  unfold shardFiles
  rw [List.mem_mergeSort, List.filter_cons, if_pos hname]
  exact List.mem_cons_self

end Counting

section AddedOutput

/-- The output of an earlier merge, put into a directory of the tree. The output of a finished
merge can be read, so the default is not taken for it (`merged_readable`). -/
def addedOutput (directory : Path) (earlier : Outputs) : ShardFile where
  path := directory ++ [ascii "kafka_producer_merged.csv"]
  csv := earlier.csvFile.getD { header := [], records := [] }

theorem addedOutput_isShardName (directory : Path) (earlier : Outputs) :
    isShardName (addedOutput directory earlier).path.name = true := by
  have hname : (addedOutput directory earlier).path.name =
      ascii "kafka_producer_merged.csv" := by
    simp [addedOutput, Path.name, List.getLastD_eq_getLast?]
  rw [hname]
  decide

/-- What a merge that still succeeds has done: the added table had one
configuration, its ten rows are written again and one more run is counted. -/
theorem added_counted {root root' : Bytes} {tree tree' : List ShardFile}
    {before before' before'' after earlier again : Outputs} {directory : Path}
    (hmerge : mergeKafkaResults root tree before = (.ok (), after))
    (hearlier : mergeKafkaResults root' tree' before' = (.ok (), earlier))
    (hagain : mergeKafkaResults root (addedOutput directory earlier :: tree) before'' =
      (.ok (), again)) :
    (shardFiles tree').length = 1 ∧
      (∃ lines more, after.csv = tableText lines ∧ again.csv = tableText more ∧
        more.length = lines.length + 10) ∧
      readMetadata after.metadata (ascii "runs") =
        some (decimalDigits (shardFiles tree).length) ∧
      readMetadata again.metadata (ascii "runs") =
        some (decimalDigits ((shardFiles tree).length + 1)) := by
  have hname := addedOutput_isShardName directory earlier
  obtain ⟨hvalid, hafter⟩ := mergeFiles_ok hmerge
  obtain ⟨hvalid', -⟩ := mergeFiles_ok hearlier
  obtain ⟨hvalid'', hagain'⟩ := mergeFiles_ok hagain
  have hcount := mergedRecords_length hvalid
  have hcount' := mergedRecords_length hvalid'
  have hcount'' := mergedRecords_length hvalid''
  have hruns'' := merged_runs hagain
  rw [shardFiles_cons_length hname] at hcount'' hruns''
  have hten := (hvalid''.sets _ (mem_shardFiles_cons hname)).1
  have hrows : (addedOutput directory earlier).csv.rows.length =
      (mergedRecords (shardFiles tree')).length := by
    rw [addedOutput, merged_readable hearlier, Option.getD_some, CsvFile.rows, List.length_map]
  refine ⟨by omega, ⟨_, _, congrArg Outputs.csv hafter, congrArg Outputs.csv hagain', ?_⟩,
    merged_runs hmerge, hruns''⟩
  rw [List.length_cons, List.length_cons]
  omega

/-- A merge never survives an earlier output in its tree: it fails, or it writes other
rows and counts other runs. -/
theorem merge_with_earlier_output_differs {root root' : Bytes} {tree tree' : List ShardFile}
    {before before' before'' after earlier : Outputs} (directory : Path)
    (hmerge : mergeKafkaResults root tree before = (.ok (), after))
    (hearlier : mergeKafkaResults root' tree' before' = (.ok (), earlier)) :
    ¬ ∃ again, mergeKafkaResults root (addedOutput directory earlier :: tree) before'' =
        (.ok (), again) ∧
      (again.csv = after.csv ∨ readMetadata again.metadata (ascii "runs") =
        readMetadata after.metadata (ascii "runs")) := by
  intro h
  obtain ⟨again, hagain, hsame⟩ := h
  obtain ⟨-, ⟨lines, more, hlines, hmore, hlength⟩, hruns, hruns'⟩ :=
    added_counted hmerge hearlier hagain
  rcases hsame with hcsv | hequal
  · rw [hlines, hmore] at hcsv
    rw [tableText_injective hcsv] at hlength
    omega
  · rw [hruns, hruns'] at hequal
    have hcount := decimalDigits_injective (Option.some.inj hequal)
    omega

theorem sampleShards_merge {shards : List ShardFile} (hne : shards ≠ [])
    (hshards : ∀ file ∈ shards, ∃ name mode, file = sampleShard name mode)
    (hfiles : shardFiles shards = shards) :
    mergeKafkaResults (ascii "root") shards ⟨[], []⟩ =
      (.ok (), mergedOutputs (sampleShard "" "").csv.header shards) := by
  unfold mergeKafkaResults
  rw [hfiles]
  have hheader : ∀ file ∈ shards, file.csv.header = (sampleShard "" "").csv.header := by
    intro file hfile
    obtain ⟨name, mode, rfl⟩ := hshards file hfile
    rfl
  have hround : ∀ file ∈ shards, ∀ record ∈ file.csv.records,
      (dictRow (sampleShard "" "").csv.header record).written (sampleShard "" "").csv.header =
        .ok record := by
    intro file hfile record hrecord
    obtain ⟨name, mode, rfl⟩ := hshards file hfile
    exact sampleShard_written name mode hrecord
  refine (mergeFiles_ok_iff hne hheader hround).mpr ⟨?_, rfl⟩
  intro file hfile
  obtain ⟨name, mode, rfl⟩ := hshards file hfile
  exact sampleShard_complete name mode

def oneShard : List ShardFile := [sampleShard "kafka_producer_1.csv" "copy"]

theorem oneShard_merge : mergeKafkaResults (ascii "root") oneShard ⟨[], []⟩ =
    (.ok (), mergedOutputs (sampleShard "" "").csv.header oneShard) := by
  apply sampleShards_merge (List.cons_ne_nil _ _)
  · intro file hfile
    exact ⟨_, _, List.mem_singleton.mp hfile⟩
  · unfold shardFiles
    rw [List.filter_cons, if_pos (by decide), List.filter_nil, List.mergeSort_singleton]

theorem sampleShards_files : shardFiles sampleShards = sampleShards := by
  have hnames : sampleShards.filter (fun file => isShardName file.path.name) = sampleShards := by
    rw [List.filter_eq_self]
    intro file hfile
    rcases List.mem_pair.mp hfile with rfl | rfl <;> decide
  unfold shardFiles
  rw [hnames]
  apply List.mergeSort_of_pairwise
  refine List.pairwise_pair.mpr ?_
  decide

theorem sampleShards_merged : mergeKafkaResults (ascii "root") sampleShards ⟨[], []⟩ =
    (.ok (), mergedOutputs (sampleShard "" "").csv.header sampleShards) := by
  refine sampleShards_merge (List.cons_ne_nil _ _) ?_ sampleShards_files
  intro file hfile
  rcases List.mem_pair.mp hfile with rfl | rfl
  · exact ⟨_, _, rfl⟩
  · exact ⟨_, _, rfl⟩

/-- One shard and the output of its own merge. -/
theorem merge_with_earlier_output_differs_one_shard :
    ¬ ∃ again, mergeKafkaResults (ascii "root")
        (addedOutput [ascii "root", ascii "amd64"]
          (mergedOutputs (sampleShard "" "").csv.header oneShard) :: oneShard) ⟨[], []⟩ =
        (.ok (), again) ∧
      (again.csv = (mergedOutputs (sampleShard "" "").csv.header oneShard).csv ∨
        readMetadata again.metadata (ascii "runs") = readMetadata
          (mergedOutputs (sampleShard "" "").csv.header oneShard).metadata (ascii "runs")) :=
  merge_with_earlier_output_differs _ oneShard_merge oneShard_merge

/-- Two shards merge, and with their merged table in the tree they no longer do. -/
theorem merge_refused_after_two_shards :
    ∃ after, mergeKafkaResults (ascii "root") sampleShards ⟨[], []⟩ = (.ok (), after) ∧
      ¬ ∃ again, mergeKafkaResults (ascii "root")
        (addedOutput [ascii "root", ascii "amd64"] after :: sampleShards) ⟨[], []⟩ =
        (.ok (), again) := by
  refine ⟨_, sampleShards_merged, ?_⟩
  intro h
  obtain ⟨again, hagain⟩ := h
  have hcount := (added_counted sampleShards_merged sampleShards_merged hagain).1
  rw [sampleShards_files] at hcount
  exact absurd hcount (by decide)

end AddedOutput

end ProtobufKafkaBench.KafkaReports

import ProtobufKafkaBench.KafkaReport
import ProtobufKafkaBench.Exceptions

/-!
The merge and the report together. On shards that read as numbers, the two
scripts succeed exactly when every file is a complete repetition set of one
configuration and no configuration has two files; a merged table that an earlier
run left in the tree is taken for one more shard.
-/
namespace ProtobufKafkaBench.KafkaReports

open Exceptions ByteBuffers CsvTables CsvWriters Grouping

section CompleteSets

/-- Ten rows, numbered 1 to 10 in order, each of 1,000,000 iterations. -/
def CompleteSet (rows : List DictRow) : Prop :=
  rows.length = 10 ∧
  (∀ row ∈ rows, row.intItem (ascii "iterations") = .ok 1000000) ∧
  rows.map (fun row => row.intItem (ascii "repetition")) =
    ([1, 2, 3, 4, 5, 6, 7, 8, 9, 10] : List ℤ).map Except.ok

theorem repetitionOf_eq_ok {path : Bytes} {iterations repetition : ℤ} {row : DictRow} :
    repetitionOf path iterations row = .ok repetition ↔
      row.intItem (ascii "iterations") = .ok iterations ∧
        row.intItem (ascii "repetition") = .ok repetition := by
  unfold repetitionOf
  rw [bind_eq_ok]
  constructor
  · intro h
    obtain ⟨n, hn, hrest⟩ := h
    by_cases heq : n = iterations
    · subst heq
      rw [if_neg (by simp)] at hrest
      exact ⟨hn, hrest⟩
    · rw [if_pos heq] at hrest
      obtain ⟨value, -, herror⟩ := bind_eq_ok.mp hrest
      cases herror
  · intro h
    obtain ⟨hiterations, hrepetition⟩ := h
    exact ⟨iterations, hiterations, by rw [if_neg (by simp)]; exact hrepetition⟩

/-- Both validators accept exactly the complete sets. -/
theorem validateRows_ok_iff {path : Bytes} {rows : List DictRow} :
    validateRows path rows 1000000 10 = .ok () ↔ CompleteSet rows := by
  unfold validateRows CompleteSet
  by_cases hlength : (rows.length : ℤ) = 10
  · rw [if_neg (not_not.mpr hlength), bind_eq_ok]
    constructor
    · intro h
      obtain ⟨repetitions, hmap, hrest⟩ := h
      by_cases hrepetitions :
          repetitions = (List.range' 1 (10 : ℤ).toNat).map Int.ofNat
      · have hrows := mapM_eq_ok.mp hmap
        have hall : ∀ row ∈ rows, ∃ n, repetitionOf path 1000000 row = .ok n := by
          intro row hrow
          obtain ⟨n, -, hn⟩ := exists_result_of_mapM hmap hrow
          exact ⟨n, hn⟩
        refine ⟨by omega, ?_, ?_⟩
        · intro row hrow
          obtain ⟨n, hn⟩ := hall row hrow
          exact (repetitionOf_eq_ok.mp hn).1
        · have hsame : rows.map (fun row => row.intItem (ascii "repetition")) =
              rows.map (repetitionOf path 1000000) := by
            apply List.map_congr_left
            intro row hrow
            obtain ⟨n, hn⟩ := hall row hrow
            rw [hn, (repetitionOf_eq_ok.mp hn).2]
          rw [hsame, hrows, hrepetitions]
          rfl
      · rw [if_pos hrepetitions] at hrest
        cases hrest
    · intro h
      obtain ⟨-, hiterations, hrepetitions⟩ := h
      refine ⟨[1, 2, 3, 4, 5, 6, 7, 8, 9, 10], ?_, if_neg (not_not.mpr rfl)⟩
      rw [mapM_eq_ok, ← hrepetitions]
      apply List.map_congr_left
      intro row hrow
      have hmem := List.mem_map_of_mem
        (f := fun row : DictRow => row.intItem (ascii "repetition")) hrow
      rw [hrepetitions] at hmem
      obtain ⟨n, -, hn⟩ := List.mem_map.mp hmem
      rw [← hn]
      exact repetitionOf_eq_ok.mpr ⟨hiterations row hrow, hn.symm⟩
  · rw [if_pos hlength]
    constructor
    · intro h
      cases h
    · intro h
      obtain ⟨hten, -⟩ := h
      exact absurd (by omega) hlength

end CompleteSets

section MetadataRoundTrip

theorem universalNewlines_eq_self {text : Bytes} (h : 13 ∉ text) :
    universalNewlines text = text := by
  fun_induction universalNewlines text with
  | case1 => rfl
  | case2 rest ih => simp at h
  | case3 rest hrest ih => simp at h
  | case4 b rest hb hb' ih =>
    rw [ih fun hmem => h (List.mem_cons_of_mem b hmem)]

theorem splitLines_append {text : Bytes} (h : ∀ b ∈ text, isLineBreak b = false)
    (line rest : Bytes) :
    splitLines line (text ++ 10 :: rest) = (line ++ text) :: splitLines [] rest := by
  induction text generalizing line with
  | nil => simp [splitLines, isLineBreak]
  | cons b text ih =>
    have hb := h b List.mem_cons_self
    rw [List.cons_append, splitLines, hb]
    simp only [Bool.false_eq_true, if_false]
    rw [ih (fun c hc => h c (List.mem_cons_of_mem b hc)), List.append_assoc]
    rfl

/-- A key without `=` and a key and value on one line. -/
def Clean (entry : Bytes × Bytes) : Prop :=
  61 ∉ entry.1 ∧ ∀ b ∈ entry.1 ++ entry.2, isLineBreak b = false

theorem splitLines_metadataText {entries : List (Bytes × Bytes)}
    (h : ∀ entry ∈ entries, Clean entry) :
    splitLines [] (metadataText entries) =
      entries.map fun entry => entry.1 ++ ascii "=" ++ entry.2 := by
  induction entries with
  | nil => rfl
  | cons entry rest ih =>
    have hline : ∀ b ∈ entry.1 ++ ascii "=" ++ entry.2, isLineBreak b = false := by
      intro b hb
      have hclean := (h entry List.mem_cons_self).2 b
      rw [List.mem_append, List.mem_append] at hb
      rcases hb with (hb | hb) | hb
      · exact hclean (List.mem_append_left _ hb)
      · obtain rfl := List.mem_singleton.mp hb
        rfl
      · exact hclean (List.mem_append_right _ hb)
    have htext : metadataText (entry :: rest) =
        (entry.1 ++ ascii "=" ++ entry.2) ++ 10 :: metadataText rest := by
      simp [metadataText, ascii]
    rw [htext, splitLines_append hline, ih fun e he => h e (List.mem_cons_of_mem entry he)]
    rfl

theorem cut_append {key value : Bytes} (h : 61 ∉ key) :
    cut (· = 61) (key ++ ascii "=" ++ value) = (key, some value) := by
  have hkeep : ∀ b ∈ key, (!decide (b = 61)) = true := by
    intro b hb
    have hne : b ≠ 61 := by
      intro heq
      exact h (heq ▸ hb)
    simp [hne]
  have hdrop : (key ++ ascii "=" ++ value).dropWhile (fun b => !decide (b = 61)) =
      61 :: value := by
    rw [List.append_assoc, List.dropWhile_append_of_pos hkeep]
    rfl
  have htake : (key ++ ascii "=" ++ value).takeWhile (fun b => !decide (b = 61)) = key := by
    rw [List.append_assoc, List.takeWhile_append_of_pos hkeep]
    exact List.append_nil key
  unfold cut
  rw [hdrop, htake]

/-- What is written as metadata is read back. -/
theorem readMetadata_metadataText {entries : List (Bytes × Bytes)}
    (h : ∀ entry ∈ entries, Clean entry) (name : Bytes) :
    readMetadata (metadataText entries) name = entries.reverse.lookup name := by
  have hnewlines : 13 ∉ metadataText entries := by
    intro hmem
    obtain ⟨entry, hentry, hb⟩ := List.mem_flatMap.mp hmem
    have hclean := (h entry hentry).2 13
    simp only [List.mem_append] at hb
    rcases hb with ((hb | hb) | hb) | hb
    · exact absurd (hclean (List.mem_append_left _ hb)) (by decide)
    · exact absurd hb (by decide)
    · exact absurd (hclean (List.mem_append_right _ hb)) (by decide)
    · exact absurd hb (by decide)
  unfold readMetadata
  rw [universalNewlines_eq_self hnewlines, splitLines_metadataText h, List.filterMap_map]
  have hentry : ∀ entry ∈ entries,
      (metadataEntry ∘ fun entry : Bytes × Bytes => entry.1 ++ ascii "=" ++ entry.2) entry =
        some entry := by
    intro entry hentry
    simp only [Function.comp_apply, metadataEntry, cut_append (h entry hentry).1]
  rw [List.filterMap_congr hentry, List.filterMap_some]

theorem decimalDigits_isDigit (n : ℕ) : ∀ b ∈ decimalDigits n, isDigit b = true := by
  intro b hb
  simpa only [isDigit, decide_eq_true_eq, UInt8.le_iff_toNat_le, UInt8.reduceToNat]
    using decimalDigits_range hb

theorem no_line_break {text : Bytes} (h : (text.all fun b => !isLineBreak b) = true) :
    ∀ b ∈ text, isLineBreak b = false := by
  intro b hb
  have hb' := List.all_eq_true.mp h b hb
  rwa [Bool.not_eq_true'] at hb'

/-- A count can stand as a value. -/
theorem clean_decimalDigits {key : Bytes} (hkey : 61 ∉ key)
    (hline : ∀ b ∈ key, isLineBreak b = false) (n : ℕ) : Clean (key, decimalDigits n) := by
  refine ⟨hkey, fun b hb => ?_⟩
  rcases List.mem_append.mp hb with hb | hb
  · exact hline b hb
  · have hrange := decimalDigits_range hb
    simp only [isLineBreak, decide_eq_false_iff_not, UInt8.le_iff_toNat_le, UInt8.reduceToNat]
    omega

theorem metadata_clean (files : List ShardFile) : ∀ entry ∈ metadata files, Clean entry := by
  have hdigits : ∀ n, ∀ b ∈ decimalDigits n, isLineBreak b = false := by
    intro n b hb
    have hdigit := decimalDigits_isDigit n b hb
    simp only [isDigit, isLineBreak, decide_eq_true_eq, decide_eq_false_iff_not,
      UInt8.le_iff_toNat_le, UInt8.reduceToNat] at hdigit ⊢
    omega
  have hcount : ∀ key n, 61 ∉ key → (∀ b ∈ key, isLineBreak b = false) →
      Clean (key, decimalDigits n) := by
    intro key n hkey hline
    refine ⟨hkey, ?_⟩
    intro b hb
    rcases List.mem_append.mp hb with hb | hb
    · exact hline b hb
    · exact hdigits n b hb
  intro entry hentry
  simp only [metadata, List.mem_cons, List.not_mem_nil, or_false] at hentry
  rcases hentry with rfl | rfl | rfl | rfl | rfl | rfl
  · exact hcount _ _ (by decide) (no_line_break (by decide))
  · exact ⟨by decide, no_line_break (by decide)⟩
  · exact ⟨by decide, no_line_break (by decide)⟩
  · exact hcount _ _ (by decide) (no_line_break (by decide))
  · exact ⟨by decide, no_line_break (by decide)⟩
  · exact ⟨by decide, no_line_break (by decide)⟩

end MetadataRoundTrip

section Merge

variable {root : Bytes} {files : List ShardFile} {before : Outputs} {header : List Bytes}

theorem collectFile_ok_iff {fieldnames : Option (List Bytes)} {file : ShardFile}
    {names : List Bytes} (hheader : file.csv.header = header)
    (hnames : ∀ known, fieldnames = some known → known = header) :
    collectFile fieldnames file = .ok names ↔ CompleteSet file.csv.rows ∧ names = header := by
  have hresult : fieldnames.getD file.csv.header = header := by
    cases fieldnames with
    | none => exact hheader
    | some known => exact hnames known rfl
  have hchecked : collectFile fieldnames file =
      (validateRows file.path.text file.csv.rows 1000000 10 >>= fun _ => .ok header) := by
    unfold collectFile
    rw [hresult]
    cases fieldnames with
    | none => rfl
    | some known =>
      obtain rfl := hnames known rfl
      simp only [hheader, ne_eq, not_true_eq_false, if_false]
      rfl
  rw [hchecked, bind_eq_ok]
  constructor
  · intro h
    obtain ⟨⟨⟩, hvalid, hnames'⟩ := h
    exact ⟨validateRows_ok_iff.mp hvalid, (Except.ok.inj hnames').symm⟩
  · intro h
    obtain ⟨hset, rfl⟩ := h
    exact ⟨(), validateRows_ok_iff.mpr hset, rfl⟩

/-- The loop over files with one header ends normally exactly when each of them is
a complete set, and then it has taken all their rows in order. -/
theorem collect_ok_iff (hheader : ∀ file ∈ files, file.csv.header = header)
    {fieldnames : Option (List Bytes)}
    (hnames : ∀ known, fieldnames = some known → known = header) {rows : List DictRow}
    {result : Option (List Bytes) × List DictRow} :
    collect fieldnames rows files = .ok result ↔
      (∀ file ∈ files, CompleteSet file.csv.rows) ∧
        result = (if files = [] then fieldnames else some header,
          rows ++ files.flatMap fun file => file.csv.rows) := by
  induction files generalizing fieldnames rows with
  | nil =>
    simp only [collect, List.flatMap_nil, List.append_nil, if_true, List.not_mem_nil,
      false_implies, implies_true, true_and, Except.ok.injEq]
    exact eq_comm
  | cons file rest ih =>
    have hrest := @ih (fun f hf => hheader f (List.mem_cons_of_mem file hf)) (some header)
      (by intro known hknown; exact (Option.some.inj hknown).symm) (rows ++ file.csv.rows)
    have hfile := hheader file List.mem_cons_self
    unfold collect
    rw [bind_eq_ok]
    constructor
    · intro h
      obtain ⟨names, hnames', hcollect⟩ := h
      obtain ⟨hset, rfl⟩ := (collectFile_ok_iff hfile hnames).mp hnames'
      obtain ⟨hsets, rfl⟩ := hrest.mp hcollect
      refine ⟨?_, ?_⟩
      · intro f hf
        rcases List.mem_cons.mp hf with rfl | hf
        · exact hset
        · exact hsets f hf
      · simp
    · intro h
      obtain ⟨hsets, rfl⟩ := h
      refine ⟨header, (collectFile_ok_iff hfile hnames).mpr
        ⟨hsets file List.mem_cons_self, rfl⟩, hrest.mpr
        ⟨fun f hf => hsets f (List.mem_cons_of_mem file hf), ?_⟩⟩
      simp

/-- What a successful merge leaves behind. -/
def mergedOutputs (header : List Bytes) (files : List ShardFile) : Outputs where
  csv := tableText (header :: files.flatMap fun file => file.csv.records)
  metadata := metadataText (metadata files)

/-- The table that is read back from it. -/
def mergedTable (header : List Bytes) (files : List ShardFile) : CsvFile where
  header
  records := files.flatMap fun file => file.csv.records

theorem header_ne_nil {rows : List DictRow} (h : CompleteSet rows)
    (hrows : ∀ row ∈ rows, ∃ record, row = dictRow header record) : header ≠ [] := by
  rintro rfl
  obtain ⟨hten, hiterations, -⟩ := h
  obtain ⟨row, hrow⟩ := List.exists_mem_of_length_pos (by omega : 0 < rows.length)
  obtain ⟨record, rfl⟩ := hrows row hrow
  have hmissing := hiterations _ hrow
  unfold DictRow.intItem at hmissing
  obtain ⟨value, hitem, -⟩ := bind_eq_ok.mp hmissing
  have hlookup := DictRow.lookup_of_item hitem
  simp [dictRow, DictRow.lookup] at hlookup

/-- Records that come out as they were read have the length of the header. -/
theorem written_ne_nil {record : List Bytes} (hheader : header ≠ [])
    (h : (dictRow header record).written header = .ok record) : record ≠ [] := by
  unfold DictRow.written at h
  split at h
  · rw [← Except.ok.inj h, ne_eq, List.map_eq_nil_iff]
    exact hheader
  · cases h

/-- The merged table is read back from the bytes of its file. -/
theorem merged_csvFile (hheader : ∀ file ∈ files, file.csv.header = header)
    (hround : ∀ file ∈ files, ∀ record ∈ file.csv.records,
      (dictRow header record).written header = .ok record)
    (hsets : ∀ file ∈ files, CompleteSet file.csv.rows) :
    (mergedOutputs header files).csvFile = some (mergedTable header files) := by
  refine CsvWriters.readTable_tableText fun record hrecord => ?_
  obtain ⟨file, hfile, hmem⟩ := List.mem_flatMap.mp hrecord
  refine written_ne_nil ?_ (hround file hfile record hmem)
  refine header_ne_nil (hsets file hfile) fun row hrow => ?_
  obtain ⟨r, -, rfl⟩ := List.mem_map.mp hrow
  exact ⟨r, by rw [hheader file hfile]⟩

theorem merged_rows (hheader : ∀ file ∈ files, file.csv.header = header) :
    (mergedTable header files).rows = files.flatMap fun file => file.csv.rows := by
  have hrows : (mergedTable header files).rows =
      (files.flatMap fun file => file.csv.records).map (dictRow header) := rfl
  rw [hrows, List.map_flatMap]
  apply List.flatMap_congr
  intro file hfile
  rw [CsvFile.rows, hheader file hfile]

theorem collected_written (hheader : ∀ file ∈ files, file.csv.header = header)
    (hround : ∀ file ∈ files, ∀ record ∈ file.csv.records,
      (dictRow header record).written header = .ok record) :
    writeRows header (files.flatMap fun file => file.csv.rows) =
      (files.flatMap fun file => file.csv.records, .ok ()) := by
  rw [← merged_rows hheader]
  apply writeRows_records
  intro record hrecord
  obtain ⟨file, hfile, hmem⟩ := List.mem_flatMap.mp hrecord
  exact hround file hfile record hmem

/-- On shards with one header whose rows are written as they were read, the merge
succeeds exactly on complete sets, and writes all rows of all files in order. -/
theorem mergeFiles_ok_iff (hne : files ≠ [])
    (hheader : ∀ file ∈ files, file.csv.header = header)
    (hround : ∀ file ∈ files, ∀ record ∈ file.csv.records,
      (dictRow header record).written header = .ok record) {after : Outputs} :
    mergeFiles root files before = (.ok (), after) ↔
      (∀ file ∈ files, CompleteSet file.csv.rows) ∧ after = mergedOutputs header files := by
  have hcollect := @collect_ok_iff files header hheader none nofun []
  unfold mergeFiles
  rw [if_neg hne]
  by_cases hsets : ∀ file ∈ files, CompleteSet file.csv.rows
  · have hok := hcollect.mpr ⟨hsets, rfl⟩
    rw [if_neg hne, List.nil_append] at hok
    simp only [hok, Option.getD_some, collected_written hheader hround]
    constructor
    · intro h
      exact ⟨hsets, (Prod.mk.inj h).2.symm⟩
    · intro h
      rw [h.2]
      rfl
  · cases hresult : collect none [] files with
    | error error =>
      simp only
      constructor
      · intro h
        cases (Prod.mk.inj h).1
      · intro h
        exact absurd h.1 hsets
    | ok result => exact absurd (hcollect.mp hresult).1 hsets

end Merge

section Report

/-- The configuration of a row, where a missing column counts as `None`. -/
def configuration (row : DictRow) : Key :=
  configNames.map fun name => (row.lookup name).getD none

/-- A row that has what the two scripts read, with numbers where they need them. -/
structure Readable (row : DictRow) : Prop where
  texts : ∀ name ∈ configNames ++ [ascii "bytes"], ((row.lookup name).getD none).isSome
  integers : ∀ name ∈ ["repetition", "iterations", "delivery_errors"].map ascii,
    (row.intItem name).isOk
  floats : ∀ name ∈ ["enqueue_elapsed_ns", "end_to_end_ns"].map ascii, (row.floatItem name).isOk

namespace Readable

variable {row : DictRow} {name : Bytes}

theorem text (h : Readable row) (hname : name ∈ configNames ++ [ascii "bytes"]) :
    ∃ text, row.lookup name = some (some text) := by
  have hsome := h.texts name hname
  cases hlookup : row.lookup name with
  | none => simp [hlookup] at hsome
  | some value =>
    cases value with
    | none => simp [hlookup] at hsome
    | some text => exact ⟨text, rfl⟩

theorem integer (h : Readable row)
    (hname : name ∈ ["repetition", "iterations", "delivery_errors"].map ascii) :
    ∃ n, row.intItem name = .ok n := by
  have hok := h.integers name hname
  cases hitem : row.intItem name with
  | error error => simp [hitem, Except.isOk, Except.toBool] at hok
  | ok n => exact ⟨n, rfl⟩

theorem float (h : Readable row)
    (hname : name ∈ ["enqueue_elapsed_ns", "end_to_end_ns"].map ascii) :
    ∃ q, row.floatItem name = .ok q := by
  have hok := h.floats name hname
  cases hitem : row.floatItem name with
  | error error => simp [hitem, Except.isOk, Except.toBool] at hok
  | ok q => exact ⟨q, rfl⟩

end Readable

theorem rowKey_eq {row : DictRow} (h : Readable row) : rowKey row = .ok (configuration row) := by
  apply mapM_ok
  intro name hname
  obtain ⟨text, htext⟩ := h.text (List.mem_append_left _ hname)
  simp [DictRow.item, htext]

theorem joinKey_ok {row : DictRow} (h : Readable row) :
    ∃ text, joinKey (configuration row) = .ok text := by
  have hparts : ∀ part ∈ configuration row, part = some (part.getD []) := by
    intro part hpart
    obtain ⟨name, hname, rfl⟩ := List.mem_map.mp hpart
    obtain ⟨text, htext⟩ := h.text (List.mem_append_left _ hname)
    rw [htext]
    rfl
  refine ⟨_, bind_eq_ok.mpr ⟨_, mapM_ok (g := fun part => part.getD []) ?_, rfl⟩⟩
  intro part hpart
  rw [hparts part hpart]
  rfl

theorem groupLoop_eq {rows : List DictRow} (h : ∀ row ∈ rows, Readable row) :
    groupLoop rows = .ok (groupRows configuration rows) :=
  groupRowsM_ok fun row hrow => rowKey_eq (h row hrow)

/-- A line can be printed for every nonempty group of readable rows whose iteration
counts are not zero; it summarises exactly that group. -/
theorem reportRow_ok {group : Key × List DictRow} (hne : group.2 ≠ [])
    (hreadable : ∀ row ∈ group.2, Readable row)
    (hiterations : ∀ row ∈ group.2, row.intItem (ascii "iterations") = .ok 1000000) :
    ∃ line, reportRow group = .ok line ∧ line.key = group.1 ∧ line.values = group.2 := by
  have hquotients : ∀ name ∈ ["enqueue_elapsed_ns", "end_to_end_ns"].map ascii,
      ∃ values, group.2.mapM (perMessage name) = .ok values := by
    intro name hname
    have heach : ∀ row ∈ group.2, ∃ q, perMessage name row = .ok q := by
      intro row hrow
      obtain ⟨q, hq⟩ := (hreadable row hrow).float hname
      exact ⟨q / 1000000, by
        simp [perMessage, hq, hiterations row hrow, bind, Except.bind, pure, Except.pure]⟩
    exact exists_mapM_ok heach
  have herrors : ∃ values, (group.2.mapM fun row => row.intItem (ascii "delivery_errors")) =
      .ok values :=
    exists_mapM_ok fun row hrow => (hreadable row hrow).integer (by decide)
  obtain ⟨enqueue, henqueue⟩ := hquotients (ascii "enqueue_elapsed_ns") (by decide)
  obtain ⟨total, htotal⟩ := hquotients (ascii "end_to_end_ns") (by decide)
  obtain ⟨errors, herrors⟩ := herrors
  have hlast := List.getLast?_eq_some_getLast hne
  have hname : ascii "bytes" ∈ configNames ++ [ascii "bytes"] := by decide
  obtain ⟨bytes, hbytes⟩ := (hreadable _ (List.getLast_mem hne)).text hname
  refine ⟨{ key := group.1, values := group.2, bytes, enqueue, total, errors := errors.sum },
    ?_, rfl, rfl⟩
  simp [reportRow, henqueue, htotal, herrors, hlast, DictRow.item, hbytes, bind, Except.bind,
    pure, Except.pure]

/-- The repetition number of a row, as read. -/
def repetitionItem (row : DictRow) : Except PyError ℤ := row.intItem (ascii "repetition")

def repetitionLabels : List (Except PyError ℤ) :=
  ([1, 2, 3, 4, 5, 6, 7, 8, 9, 10] : List ℤ).map Except.ok

theorem repetitionLabels_nodup : repetitionLabels.Nodup := by
  apply List.Nodup.map
  · intro a b h
    exact Except.ok.inj h
  · decide

theorem validateGroup_ok_iff {rows : List DictRow} (hreadable : ∀ row ∈ rows, Readable row)
    {group : Key × List DictRow} (hgroup : group ∈ groupRows configuration rows) :
    validateGroup 1000000 10 group = .ok () ↔ CompleteSet group.2 := by
  have hkey : ∃ row ∈ rows, configuration row = group.1 := by
    have hmem := (mem_keys_groupRows configuration rows group.1).mp
      (List.mem_map_of_mem hgroup)
    exact List.mem_map.mp hmem
  obtain ⟨row, hrow, hconfiguration⟩ := hkey
  obtain ⟨text, htext⟩ := joinKey_ok (hreadable row hrow)
  rw [hconfiguration] at htext
  rw [validateGroup, htext]
  exact validateRows_ok_iff

theorem mem_rows_of_group {rows : List DictRow} {group : Key × List DictRow}
    (hgroup : group ∈ groupRows configuration rows) : ∀ row ∈ group.2, row ∈ rows := by
  intro row hrow
  rw [groupRows_values configuration rows group hgroup] at hrow
  exact (List.mem_filter.mp hrow).1

/-- The report ends normally exactly when every group is a complete set, and then
it has one line for each group, which summarises that group. -/
theorem kafkaReport_spec {files : List CsvFile} {rows : List DictRow} {text runs : Bytes}
    (hrows : files.flatMap CsvFile.rows = rows) (hne : rows ≠ [])
    (hreadable : ∀ row ∈ rows, Readable row)
    (hiterations : readMetadata text (ascii "iterations") = some (ascii "1000000"))
    (hrepetitions : readMetadata text (ascii "repetitions") = some (ascii "10"))
    (hruns : readMetadata text (ascii "runs") = some runs) :
    ((∃ report, kafkaReport files text = .ok report) ↔
      ∀ group ∈ groupRows configuration rows, CompleteSet group.2) ∧
    ∀ report, kafkaReport files text = .ok report → report.runs = runs ∧
      (report.rows.map fun line => (line.key, line.values)).Perm
        (groupRows configuration rows) := by
  have hreport : kafkaReport files text =
      ((groupRows configuration rows).forM (validateGroup 1000000 10) >>= fun _ =>
        (sortGroups (groupRows configuration rows)).mapM reportRow >>= fun lines =>
          .ok { runs := runs, iterations := 1000000, repetitions := 10, rows := lines }) := by
    unfold kafkaReport
    simp only [hrows, groupLoop_eq hreadable, hiterations, hrepetitions, hruns]
    rw [if_neg (by simpa using hne)]
    rfl
  have hsorted := List.mergeSort_perm (groupRows configuration rows) fun a b =>
    decide (a.1.map (fun part => part.getD []) ≤ b.1.map fun part => part.getD [])
  have hvalid : (groupRows configuration rows).forM (validateGroup 1000000 10) = .ok () ↔
      ∀ group ∈ groupRows configuration rows, CompleteSet group.2 := by
    rw [forM_eq_ok]
    exact forall₂_congr fun group hgroup => validateGroup_ok_iff hreadable hgroup
  have hline : (∀ group ∈ groupRows configuration rows, CompleteSet group.2) →
      ∀ group ∈ sortGroups (groupRows configuration rows),
        ∃ line, reportRow group = .ok line ∧ line.key = group.1 ∧ line.values = group.2 := by
    intro hsets group hgroup
    have hmem := hsorted.mem_iff.mp hgroup
    obtain ⟨hten, hcounts, -⟩ := hsets group hmem
    refine reportRow_ok ?_ ?_ hcounts
    · intro hnil
      rw [hnil] at hten
      cases hten
    · intro row hrow
      exact hreadable row (mem_rows_of_group hmem row hrow)
  rw [hreport]
  constructor
  · constructor
    · intro h
      obtain ⟨report, hreport'⟩ := h
      obtain ⟨⟨⟩, hforM, -⟩ := bind_eq_ok.mp hreport'
      exact hvalid.mp hforM
    · intro hsets
      obtain ⟨lines, hlines⟩ := exists_mapM_ok fun group hgroup =>
        (hline hsets group hgroup).imp fun _ h => h.1
      exact ⟨_, bind_eq_ok.mpr ⟨(), hvalid.mpr hsets, bind_eq_ok.mpr ⟨lines, hlines, rfl⟩⟩⟩
  · intro report h
    obtain ⟨⟨⟩, hforM, hrest⟩ := bind_eq_ok.mp h
    obtain ⟨lines, hlines, heq⟩ := bind_eq_ok.mp hrest
    obtain rfl := Except.ok.inj heq
    refine ⟨rfl, ?_⟩
    have hfields := hline (hvalid.mp hforM)
    choose! line hok hkey hvalues using hfields
    have hresult : (sortGroups (groupRows configuration rows)).map line = lines :=
      Except.ok.inj ((mapM_ok hok).symm.trans hlines)
    have hpairs : lines.map (fun l => (l.key, l.values)) =
        sortGroups (groupRows configuration rows) := by
      rw [← hresult, List.map_map]
      calc (sortGroups (groupRows configuration rows)).map
            ((fun l => (l.key, l.values)) ∘ line)
          = (sortGroups (groupRows configuration rows)).map id := by
            apply List.map_congr_left
            intro group hgroup
            exact Prod.ext (hkey group hgroup) (hvalues group hgroup)
        _ = sortGroups (groupRows configuration rows) := List.map_id _
    rw [hpairs]
    exact hsorted

/-- Every group of the concatenated files is complete exactly when the files, each
complete, have one configuration each and no two of them the same. -/
theorem groups_complete_iff {files : List ShardFile}
    (hsets : ∀ file ∈ files, CompleteSet file.csv.rows) :
    (∀ group ∈ groupRows configuration (files.flatMap fun file => file.csv.rows),
      CompleteSet group.2) ↔
      Separated configuration (files.map fun file => file.csv.rows) := by
  have hblocks : ∀ block ∈ files.map (fun file => file.csv.rows),
      block.map repetitionItem = repetitionLabels := by
    intro block hblock
    obtain ⟨file, hfile, rfl⟩ := List.mem_map.mp hblock
    exact (hsets file hfile).2.2
  have hseparated : _ ↔ Separated configuration _ :=
    groups_labelled_iff_separated repetitionLabels_nodup (by decide) hblocks
  rw [← List.flatMap_def] at hseparated
  rw [← hseparated]
  constructor
  · intro hgroups k hk
    obtain ⟨group, hgroup, rfl⟩ := List.mem_map.mp ((mem_keys_groupRows configuration _ k).mpr hk)
    rw [← groupRows_values configuration _ group hgroup]
    exact (hgroups group hgroup).2.2
  · intro hlabels group hgroup
    have hmap := hlabels group.1
      ((mem_keys_groupRows configuration _ _).mp (List.mem_map_of_mem hgroup))
    rw [← groupRows_values configuration _ group hgroup] at hmap
    refine ⟨?_, ?_, hmap⟩
    · have hlength := congrArg List.length hmap
      rw [List.length_map] at hlength
      exact hlength
    · intro row hrow
      obtain ⟨file, hfile, hmem⟩ := List.mem_flatMap.mp (mem_rows_of_group hgroup row hrow)
      exact (hsets file hfile).2.1 row hmem

theorem length_flatMap_of_forall {α β : Type} {values : List α} {f : α → List β} {n : ℕ}
    (h : ∀ value ∈ values, (f value).length = n) :
    (values.flatMap f).length = values.length * n := by
  induction values with
  | nil => simp
  | cons value rest ih =>
    have hrest := ih fun v hv => h v (List.mem_cons_of_mem value hv)
    rw [List.flatMap_cons, List.length_append, h value List.mem_cons_self, hrest,
      List.length_cons, Nat.succ_mul, Nat.add_comm]

/-- The report on a merged table of complete files. -/
theorem mergedReport_spec {files : List ShardFile} {header : List Bytes} (hne : files ≠ [])
    (hheader : ∀ file ∈ files, file.csv.header = header)
    (hreadable : ∀ file ∈ files, ∀ row ∈ file.csv.rows, Readable row)
    (hsets : ∀ file ∈ files, CompleteSet file.csv.rows) :
    ((∃ report, kafkaReport [mergedTable header files]
        (mergedOutputs header files).metadata = .ok report) ↔
      ∀ group ∈ groupRows configuration (files.flatMap fun file => file.csv.rows),
        CompleteSet group.2) ∧
    ∀ report, kafkaReport [mergedTable header files]
        (mergedOutputs header files).metadata = .ok report →
      report.runs = decimalDigits files.length ∧
      (report.rows.map fun line => (line.key, line.values)).Perm
        (groupRows configuration (files.flatMap fun file => file.csv.rows)) := by
  have hrows : [mergedTable header files].flatMap CsvFile.rows =
      files.flatMap fun file => file.csv.rows := by
    rw [List.flatMap_singleton, merged_rows hheader]
  have hsome : (files.flatMap fun file => file.csv.rows) ≠ [] := by
    intro hnil
    have hten := length_flatMap_of_forall fun file hfile => (hsets file hfile).1
    have hpos := List.length_pos_of_ne_nil hne
    rw [hnil, List.length_nil] at hten
    omega
  have hall : ∀ row ∈ files.flatMap fun file => file.csv.rows, Readable row := by
    intro row hrow
    obtain ⟨file, hfile, hmem⟩ := List.mem_flatMap.mp hrow
    exact hreadable file hfile row hmem
  have hmetadata := readMetadata_metadataText (metadata_clean files)
  exact kafkaReport_spec hrows hsome hall (hmetadata (ascii "iterations"))
    (hmetadata (ascii "repetitions")) (hmetadata (ascii "runs"))

/-- Lines for the complete groups of complete files: one for each file, no two of the
same configuration, and every row in the line of its own. -/
theorem report_lines {files : List ShardFile} {lines : List ReportRow}
    (hsets : ∀ file ∈ files, CompleteSet file.csv.rows)
    (hgroups : ∀ group ∈ groupRows configuration (files.flatMap fun file => file.csv.rows),
      CompleteSet group.2)
    (hperm : (lines.map fun line => (line.key, line.values)).Perm
      (groupRows configuration (files.flatMap fun file => file.csv.rows))) :
    lines.length = files.length ∧ (lines.map ReportRow.key).Nodup ∧
      (∀ line ∈ lines, ∀ row ∈ line.values, configuration row = line.key) ∧
      (lines.flatMap ReportRow.values).Perm (files.flatMap fun file => file.csv.rows) := by
  have hmember : ∀ line ∈ lines, (line.key, line.values) ∈
      groupRows configuration (files.flatMap fun file => file.csv.rows) := by
    intro line hline
    exact hperm.mem_iff.mp (List.mem_map_of_mem hline)
  have hkeys : (lines.map ReportRow.key).Perm
      ((groupRows configuration (files.flatMap fun file => file.csv.rows)).map Prod.fst) := by
    have hmap := hperm.map Prod.fst
    rwa [List.map_map] at hmap
  have hvalues : (lines.flatMap ReportRow.values).Perm
      (files.flatMap fun file => file.csv.rows) := by
    have hmap := hperm.flatMap_right Prod.snd
    rw [List.flatMap_map] at hmap
    exact hmap.trans (groupRows_flatMap configuration _)
  refine ⟨?_, hkeys.nodup_iff.mpr (groupRows_nodup configuration _), ?_, hvalues⟩
  · have htotal := hvalues.length_eq
    rw [length_flatMap_of_forall fun file hfile => (hsets file hfile).1,
      length_flatMap_of_forall fun line hline => (hgroups _ (hmember line hline)).1] at htotal
    omega
  · intro line hline row hrow
    have hgroup := groupRows_values configuration _ _ (hmember line hline)
    rw [show line.values = _ from hgroup] at hrow
    exact of_decide_eq_true (List.mem_filter.mp hrow).2

theorem mergeAndReport_eq_ok {root : Bytes} {files : List ShardFile} {before : Outputs}
    {report : Report} : mergeAndReport root files before = .ok report ↔
      ∃ outputs table, mergeFiles root files before = (.ok (), outputs) ∧
        outputs.csvFile = some table ∧ kafkaReport [table] outputs.metadata = .ok report := by
  unfold mergeAndReport
  rcases mergeFiles root files before with ⟨error | done, outputs⟩
  · constructor
    · intro h
      cases h
    · intro h
      obtain ⟨_, _, hmerge, -⟩ := h
      cases hmerge
  · constructor
    · intro h
      simp only at h
      cases htable : outputs.csvFile with
      | none =>
        rw [htable] at h
        cases h
      | some table =>
        rw [htable] at h
        exact ⟨outputs, table, rfl, htable, h⟩
    · intro h
      obtain ⟨_, table, hmerge, htable, hreport⟩ := h
      cases hmerge
      simp only [htable]
      exact hreport

/-- Merge and report accept exactly the well-formed shard sets: complete files, one
configuration in each, no configuration in two. The number of runs reported is
then the number of configuration lines, and every measured row is in one line. -/
theorem mergeAndReport_accepts_iff {root : Bytes} {files : List ShardFile} {before : Outputs}
    {header : List Bytes} (hne : files ≠ [])
    (hheader : ∀ file ∈ files, file.csv.header = header)
    (hround : ∀ file ∈ files, ∀ record ∈ file.csv.records,
      (dictRow header record).written header = .ok record)
    (hreadable : ∀ file ∈ files, ∀ row ∈ file.csv.rows, Readable row) :
    ((∃ report, mergeAndReport root files before = .ok report) ↔
      (∀ file ∈ files, CompleteSet file.csv.rows) ∧
      (∀ file ∈ files, ∀ row ∈ file.csv.rows, ∀ row' ∈ file.csv.rows,
        configuration row = configuration row') ∧
      files.Pairwise fun file file' => ∀ row ∈ file.csv.rows, ∀ row' ∈ file'.csv.rows,
        configuration row ≠ configuration row') ∧
    ∀ report, mergeAndReport root files before = .ok report →
      report.runs = decimalDigits report.rows.length ∧
      report.rows.length = files.length ∧
      (report.rows.map ReportRow.key).Nodup ∧
      (∀ line ∈ report.rows, ∀ row ∈ line.values, configuration row = line.key) ∧
      (report.rows.flatMap ReportRow.values).Perm
        (files.flatMap fun file => file.csv.rows) := by
  have hmerge := @mergeFiles_ok_iff root files before header hne hheader hround
  have hrun : ∀ report, mergeAndReport root files before = .ok report ↔
      (∀ file ∈ files, CompleteSet file.csv.rows) ∧
        kafkaReport [mergedTable header files] (mergedOutputs header files).metadata =
          .ok report := by
    intro report
    rw [mergeAndReport_eq_ok]
    constructor
    · intro h
      obtain ⟨outputs, table, houtputs, htable, hreport⟩ := h
      obtain ⟨hsets, rfl⟩ := hmerge.mp houtputs
      rw [merged_csvFile hheader hround hsets] at htable
      obtain rfl := Option.some.inj htable
      exact ⟨hsets, hreport⟩
    · intro h
      exact ⟨_, _, hmerge.mpr ⟨h.1, rfl⟩, merged_csvFile hheader hround h.1, h.2⟩
  have hseparated : Separated configuration (files.map fun file => file.csv.rows) ↔
      (∀ file ∈ files, ∀ row ∈ file.csv.rows, ∀ row' ∈ file.csv.rows,
        configuration row = configuration row') ∧
      files.Pairwise fun file file' => ∀ row ∈ file.csv.rows, ∀ row' ∈ file'.csv.rows,
        configuration row ≠ configuration row' := by
    simp [Separated, List.pairwise_map]
  constructor
  · rw [← hseparated]
    constructor
    · intro h
      obtain ⟨report, hreport⟩ := h
      obtain ⟨hsets, hmerged⟩ := (hrun report).mp hreport
      have haccepts := (mergedReport_spec hne hheader hreadable hsets).1
      exact ⟨hsets, (groups_complete_iff hsets).mp (haccepts.mp ⟨report, hmerged⟩)⟩
    · intro h
      have haccepts := (mergedReport_spec hne hheader hreadable h.1).1
      obtain ⟨report, hmerged⟩ := haccepts.mpr ((groups_complete_iff h.1).mpr h.2)
      exact ⟨report, (hrun report).mpr ⟨h.1, hmerged⟩⟩
  · intro report hreport
    obtain ⟨hsets, hmerged⟩ := (hrun report).mp hreport
    obtain ⟨haccepts, hlines⟩ := mergedReport_spec hne hheader hreadable hsets
    obtain ⟨hruns, hperm⟩ := hlines report hmerged
    obtain ⟨hlength, hfacts⟩ := report_lines hsets (haccepts.mp ⟨report, hmerged⟩) hperm
    refine ⟨?_, hlength, hfacts⟩
    rw [hruns, hlength]

/-- A shard of one configuration, as the producer benchmark writes it. -/
def sampleShard (name mode : String) : ShardFile where
  path := [ascii "root", ascii name]
  csv := {
    header := ["repetition", "iterations", "bytes", "enqueue_elapsed_ns", "end_to_end_ns",
      "delivery_errors", "mode", "acks", "compression", "linger_ms",
      "batch_num_messages"].map ascii
    records := ["1", "2", "3", "4", "5", "6", "7", "8", "9", "10"].map fun repetition =>
      [repetition, "1000000", "49", "250.000", "42571510425.000", "0", mode, "0", "none", "0",
        "1"].map ascii }

def sampleShards : List ShardFile :=
  [sampleShard "kafka_producer_1.csv" "copy", sampleShard "kafka_producer_2.csv" "owned"]

theorem sampleShards_readable :
    ∀ file ∈ sampleShards, ∀ row ∈ file.csv.rows, Readable row := by
  have htexts : ∀ file ∈ sampleShards, ∀ row ∈ file.csv.rows,
      ∀ name ∈ configNames ++ [ascii "bytes"], ((row.lookup name).getD none).isSome := by
    decide +kernel
  have hintegers : ∀ file ∈ sampleShards, ∀ row ∈ file.csv.rows,
      ∀ name ∈ ["repetition", "iterations", "delivery_errors"].map ascii,
        (row.intItem name).isOk := by decide +kernel
  have hfloats : ∀ file ∈ sampleShards, ∀ row ∈ file.csv.rows,
      ∀ name ∈ ["enqueue_elapsed_ns", "end_to_end_ns"].map ascii,
        (row.floatItem name).isOk := by decide +kernel
  intro file hfile row hrow
  exact ⟨htexts file hfile row hrow, hintegers file hfile row hrow, hfloats file hfile row hrow⟩

theorem sampleShard_complete (name mode : String) :
    CompleteSet (sampleShard name mode).csv.rows := by
  refine ⟨rfl, ?_, rfl⟩
  intro row hrow
  have hall : (sampleShard name mode).csv.rows.map
      (fun row => row.intItem (ascii "iterations")) = List.replicate 10 (.ok 1000000) := rfl
  have hmem := List.mem_map_of_mem (f := fun row : DictRow => row.intItem (ascii "iterations")) hrow
  rw [hall] at hmem
  exact List.eq_of_mem_replicate hmem

theorem sampleShard_written (name mode : String) {record : List Bytes}
    (hrecord : record ∈ (sampleShard name mode).csv.records) :
    (dictRow (sampleShard "" "").csv.header record).written (sampleShard "" "").csv.header =
      .ok record := by
  obtain ⟨repetition, -, rfl⟩ := List.mem_map.mp hrecord
  exact written_dictRow (by decide) rfl

/-- Two shards of different modes are merged and reported as two runs. -/
theorem mergeAndReport_accepts_iff_two_shards :
    ∃ report, mergeAndReport (ascii "root") sampleShards ⟨[], []⟩ = .ok report ∧
      report.rows.length = 2 := by
  have hheader : ∀ file ∈ sampleShards,
      file.csv.header = (sampleShard "" "").csv.header := by
    intro file hfile
    rcases List.mem_pair.mp hfile with rfl | rfl <;> rfl
  have hround : ∀ file ∈ sampleShards, ∀ record ∈ file.csv.records,
      (dictRow (sampleShard "" "").csv.header record).written (sampleShard "" "").csv.header =
        .ok record := by
    intro file hfile record hrecord
    rcases List.mem_pair.mp hfile with rfl | rfl
    · exact sampleShard_written _ _ hrecord
    · exact sampleShard_written _ _ hrecord
  obtain ⟨haccepts, hreports⟩ := @mergeAndReport_accepts_iff (ascii "root") _ ⟨[], []⟩ _
    (List.cons_ne_nil _ _) hheader hround sampleShards_readable
  have hsets : ∀ file ∈ sampleShards, CompleteSet file.csv.rows := by
    intro file hfile
    rcases List.mem_pair.mp hfile with rfl | rfl
    · exact sampleShard_complete _ _
    · exact sampleShard_complete _ _
  obtain ⟨report, hreport⟩ := haccepts.mpr ⟨hsets, by decide +kernel, by decide +kernel⟩
  exact ⟨report, hreport, (hreports report hreport).2.1⟩

end Report

end ProtobufKafkaBench.KafkaReports

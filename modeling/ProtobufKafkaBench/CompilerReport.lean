import ProtobufKafkaBench.AsyncReports
import ProtobufKafkaBench.Means
import ProtobufKafkaBench.MergeAndReport
import Mathlib.Data.Finset.Dedup
import Mathlib.Data.List.MinMax
import Mathlib.Order.Interval.Finset.Defs

/-!
The comparison of compilers. The table of each variant must have 360 rows in 36
configurations of ten, and its iterations and repetition numbers, taken over the
whole table, must be the expected sets. A complete table passes; what else passes
are the tables in which a configuration has a repetition number twice.
-/
namespace ProtobufKafkaBench.CompilerReport

open AsyncReports ByteBuffers CsvTables Exceptions Grouping KafkaReports

section Validation

structure ConfigKey where
  kind : Option Bytes
  library : Option Bytes
  codegen : Option Bytes
  api : Option Bytes
  testCase : Option Bytes
  deriving DecidableEq

def configKey (row : DictRow) : Except PyError ConfigKey := do
  let kind ← row.item (ascii "kind")
  let library ← row.item (ascii "library")
  let codegen ← row.item (ascii "codegen")
  let api ← row.item (ascii "api")
  let testCase ← row.item (ascii "test_case")
  return { kind, library, codegen, api, testCase }

abbrev TimeGroup := ConfigKey × List ℚ

def timeEntry (row : DictRow) : Except PyError (ConfigKey × ℚ) := do
  let key ← configKey row
  let ns ← row.floatItem (ascii "ns_per_encode")
  return (key, ns)

/-- The times of each configuration, in order of first appearance. -/
def timesByKey (rows : List DictRow) : Except PyError (List TimeGroup) := do
  let entries ← rows.mapM timeEntry
  return (groupRows Prod.fst entries).map fun group => (group.1, group.2.map Prod.snd)

/-- The checks on the rows of one variant, and the groups that pass them. -/
def acceptedGroups (name : Bytes) (rows : List DictRow) : Except PyError (List TimeGroup) :=
  if rows.length ≠ 360 then
    .error (.systemExit (name ++ ascii ": expected 360 measured rows, found " ++
      decimalDigits rows.length))
  else do
    let iterations ← rows.mapM fun row => row.intItem (ascii "iterations")
    if iterations.toFinset ≠ {1000000} then
      .error (.systemExit (name ++ ascii ": every row must use 1,000,000 iterations"))
    else
      let repetitions ← rows.mapM fun row => row.intItem (ascii "repetition")
      if repetitions.toFinset ≠ [1, 2, 3, 4, 5, 6, 7, 8, 9, 10].toFinset then
        .error (.systemExit (name ++ ascii ": expected repetitions 1 through 10"))
      else
        let groups ← timesByKey rows
        if groups.length ≠ 36 ∨ ∃ group ∈ groups, group.2.length ≠ 10 then
          .error (.systemExit (name ++
            ascii ": expected 36 configurations with 10 repetitions each"))
        else return groups

end Validation

section Report

/-- A directory below the root, with its `raw.csv` and `metadata.txt`. -/
structure Variant where
  name : Bytes
  raw : CsvFile
  metadata : Bytes

structure Summary where
  variant : Bytes
  compiler : Bytes
  standard : Bytes
  key : ConfigKey
  reps : ℕ
  median : ℚ
  mean : ℚ
  deriving DecidableEq

/-- A statistic refuses an empty list. -/
def statistic (value : Option ℚ) : Except PyError ℚ :=
  match value with
  | none => .error .valueError
  | some value => return value

def divide (a b : ℚ) : Except PyError ℚ :=
  if b = 0 then .error .zeroDivision else return a / b

def summary (variant : Variant) (group : TimeGroup) : Except PyError Summary := do
  let value (name : String) := readMetadata variant.metadata (ascii name)
  let median ← statistic (Medians.median group.2)
  let mean ← statistic (Means.mean group.2)
  return {
    variant := (value "variant").getD variant.name
    compiler := (value "compiler_name").getD (ascii "unknown")
    standard := (value "cxx_standard").getD (ascii "unknown")
    key := group.1
    reps := group.2.length
    median, mean }

/-- The loop body for one variant. -/
def variantSummaries (variant : Variant) : Except PyError (List Summary) := do
  let groups ← acceptedGroups variant.name variant.raw.rows
  groups.mapM (summary variant)

structure VariantLine where
  variant : Bytes
  compiler : Bytes
  version : Bytes
  standard : Bytes
  architecture : Bytes
  repetitions : Bytes
  deriving DecidableEq

def variantLine (metadata : Bytes) : VariantLine :=
  let value (name : String) := (readMetadata metadata (ascii name)).getD (ascii "?")
  { variant := value "variant"
    compiler := value "compiler_name"
    version := value "compiler_version"
    standard := value "cxx_standard"
    architecture := value "architecture"
    repetitions := value "repetitions" }

def sortedVariants (variants : List Variant) : List Variant :=
  variants.insertionSort fun a b =>
    (readMetadata a.metadata (ascii "variant")).getD [] ≤
      (readMetadata b.metadata (ascii "variant")).getD []

structure FastestLine where
  variant : Bytes
  testCase : Option Bytes
  best : ConfigKey
  median : ℚ
  mps : ℚ
  deriving DecidableEq

/-- The first of the candidates with the least median. -/
def best (summaries : List Summary) (variant : Bytes) (testCase : Option Bytes) :
    Option Summary :=
  (summaries.filter fun row => row.variant = variant ∧ row.key.testCase = testCase).argmin
    Summary.median

def throughput (row : Summary) : Except PyError ℚ := divide 1000 row.mean

def fastestLine (summaries : List Summary) (variant : Bytes) (testCase : Option Bytes) :
    Except PyError FastestLine :=
  match best summaries variant testCase with
  | none => .error .valueError
  | some row => do
    let mps ← throughput row
    return { variant, testCase, best := row.key, median := row.median, mps }

/-- `sorted` of a set of texts, which cannot compare `None` with a text. -/
def sortedTexts (texts : List (Option Bytes)) : Except PyError (List (Option Bytes)) :=
  if texts.all fun a => texts.all fun b => ordered a b then
    return texts.dedup.insertionSort fun a b => a.getD [] ≤ b.getD []
  else .error .typeError

def fastestLines (summaries : List Summary) : Except PyError (List FastestLine) := do
  let variants := (summaries.map Summary.variant).dedup.insertionSort (· ≤ ·)
  let lines ← variants.mapM fun variant => do
    let rows := summaries.filter fun row => row.variant = variant
    (← sortedTexts (rows.map fun row => row.key.testCase)).mapM (fastestLine summaries variant)
  return lines.flatten

/-- Sorted by test case, variant and median. -/
def sortedSummaries (summaries : List Summary) : Except PyError (List Summary) :=
  let case (row : Summary) := row.key.testCase.getD []
  if summaries.all fun a => summaries.all fun b => ordered a.key.testCase b.key.testCase then
    return summaries.insertionSort fun a b =>
      case a < case b ∨ case a = case b ∧
        (a.variant < b.variant ∨ a.variant = b.variant ∧ a.median ≤ b.median)
  else .error .typeError

structure Report where
  variants : List VariantLine
  fastest : List FastestLine
  rows : List Summary

/-- `main` on the directories with a table, in path order. -/
def compilerReport (variants : List Variant) : Except PyError Report := do
  let summaries ← variants.mapM variantSummaries
  if variants = [] then
    .error (.systemExit (ascii "no compiler result directories found"))
  else
    let fastest ← fastestLines summaries.flatten
    let rows ← sortedSummaries summaries.flatten
    return {
      variants := (sortedVariants variants).map fun variant => variantLine variant.metadata
      fastest, rows }

end Report

section Completeness

variable {name : Bytes} {rows : List DictRow} {groups : List TimeGroup}

def configuration (row : DictRow) : ConfigKey where
  kind := (row.lookup (ascii "kind")).getD none
  library := (row.lookup (ascii "library")).getD none
  codegen := (row.lookup (ascii "codegen")).getD none
  api := (row.lookup (ascii "api")).getD none
  testCase := (row.lookup (ascii "test_case")).getD none

def nsPerEncode (row : DictRow) : ℚ := (row.floatItem (ascii "ns_per_encode")).toOption.getD 0

theorem configKey_eq_ok {row : DictRow} {key : ConfigKey} (h : configKey row = .ok key) :
    configuration row = key := by
  obtain ⟨kind, hkind, h⟩ := bind_eq_ok.mp h
  obtain ⟨library, hlibrary, h⟩ := bind_eq_ok.mp h
  obtain ⟨codegen, hcodegen, h⟩ := bind_eq_ok.mp h
  obtain ⟨api, hapi, h⟩ := bind_eq_ok.mp h
  obtain ⟨testCase, htestCase, h⟩ := bind_eq_ok.mp h
  obtain rfl := Except.ok.inj h
  simp only [configuration, DictRow.lookup_of_item hkind, DictRow.lookup_of_item hlibrary,
    DictRow.lookup_of_item hcodegen, DictRow.lookup_of_item hapi,
    DictRow.lookup_of_item htestCase, Option.getD_some]

theorem timeEntry_eq_ok {row : DictRow} {entry : ConfigKey × ℚ} (h : timeEntry row = .ok entry) :
    (configuration row, nsPerEncode row) = entry := by
  obtain ⟨key, hkey, h⟩ := bind_eq_ok.mp h
  obtain ⟨ns, hns, h⟩ := bind_eq_ok.mp h
  obtain rfl := Except.ok.inj h
  rw [configKey_eq_ok hkey, nsPerEncode, hns]
  rfl

/-- The groups of times are those of the rows. -/
theorem timesByKey_eq_ok (h : timesByKey rows = .ok groups) :
    groups = (groupRows configuration rows).map fun group =>
      (group.1, group.2.map nsPerEncode) := by
  obtain ⟨entries, hentries, h⟩ := bind_eq_ok.mp h
  obtain rfl := Except.ok.inj h
  rw [eq_map_of_mapM (fun row entry => timeEntry_eq_ok) hentries, groupRows_map, List.map_map]
  apply List.map_congr_left
  intro group _
  simp only [Function.comp_apply, List.map_map]
  rfl

/-- What the four checks say about the rows. -/
structure Checked (rows : List DictRow) : Prop where
  count : rows.length = 360
  iterations : ∀ row ∈ rows, row.intItem (ascii "iterations") = .ok 1000000
  repetition : ∀ row ∈ rows, repetitionItem row ∈ repetitionLabels
  groups : (groupRows configuration rows).length = 36
  sizes : ∀ group ∈ groupRows configuration rows, group.2.length = 10

theorem acceptedGroups_eq_ok (h : acceptedGroups name rows = .ok groups) :
    Checked rows ∧ groups = (groupRows configuration rows).map fun group =>
      (group.1, group.2.map nsPerEncode) := by
  obtain ⟨hcount, h⟩ := guard_eq_ok.mp h
  obtain ⟨iterations, hiterations, h⟩ := bind_eq_ok.mp h
  obtain ⟨hmillion, h⟩ := guard_eq_ok.mp h
  obtain ⟨repetitions, hrepetitions, h⟩ := bind_eq_ok.mp h
  obtain ⟨hten, h⟩ := guard_eq_ok.mp h
  obtain ⟨found, hfound, h⟩ := bind_eq_ok.mp h
  obtain ⟨hsizes, h⟩ := guard_eq_ok.mp h
  obtain rfl := Except.ok.inj h
  have hgroups := timesByKey_eq_ok hfound
  rw [not_not] at hcount hmillion hten
  rw [not_or, not_not] at hsizes
  refine ⟨{ count := hcount, iterations := ?_, repetition := ?_, groups := ?_, sizes := ?_ },
    hgroups⟩
  · intro row hrow
    obtain ⟨n, hn, hrow'⟩ := exists_result_of_mapM hiterations hrow
    have hmem := List.mem_toFinset.mpr hn
    rw [hmillion, Finset.mem_singleton] at hmem
    rw [hrow', hmem]
  · intro row hrow
    obtain ⟨n, hn, hrow'⟩ := exists_result_of_mapM hrepetitions hrow
    have hmem := List.mem_toFinset.mpr hn
    rw [hten, List.mem_toFinset] at hmem
    rw [repetitionItem, hrow', repetitionLabels]
    exact List.mem_map_of_mem hmem
  · rw [← hsizes.1, hgroups, List.length_map]
  · intro group hgroup
    by_contra hten'
    apply hsizes.2
    refine ⟨_, hgroups ▸ List.mem_map_of_mem hgroup, ?_⟩
    rw [List.length_map]
    exact hten'

/-- The configurations are 36, and each has the repetitions 1 to 10 once each, of a
million iterations. -/
structure CompleteSets (rows : List DictRow) : Prop where
  count : (groupRows configuration rows).length = 36
  repetitions : ∀ group ∈ groupRows configuration rows,
    (group.2.map repetitionItem).Perm repetitionLabels
  iterations : ∀ row ∈ rows, row.intItem (ascii "iterations") = .ok 1000000

/-- Ten labels of the expected ones are all of them if none comes twice. -/
theorem perm_repetitionLabels_iff {labels : List (Except PyError ℤ)} (hlength : labels.length = 10)
    (hmem : ∀ label ∈ labels, label ∈ repetitionLabels) :
    labels.Perm repetitionLabels ↔ labels.Nodup := by
  constructor
  · intro h
    exact h.nodup_iff.mpr repetitionLabels_nodup
  · intro h
    have hsub := List.subperm_of_subset h hmem
    apply hsub.perm_of_length_le
    rw [hlength]
    rfl

/-- A table that is accepted consists of complete repetition sets exactly if no
configuration comes with a repetition number twice. -/
theorem accepted_complete_iff (h : acceptedGroups name rows = .ok groups) :
    CompleteSets rows ↔
      (rows.map fun row => (configuration row, repetitionItem row)).Nodup := by
  obtain ⟨hchecked, -⟩ := acceptedGroups_eq_ok h
  have hgroup : ∀ group ∈ groupRows configuration rows,
      (group.2.map repetitionItem).Perm repetitionLabels ↔
        (group.2.map repetitionItem).Nodup := by
    intro group hgroup
    apply perm_repetitionLabels_iff
    · rw [List.length_map, hchecked.sizes group hgroup]
    · intro label hlabel
      obtain ⟨row, hrow, rfl⟩ := List.mem_map.mp hlabel
      rw [groupRows_values configuration rows group hgroup] at hrow
      exact hchecked.repetition row (List.mem_of_mem_filter hrow)
  rw [← nodup_labels_iff]
  constructor
  · intro hcomplete group hmem
    exact (hgroup group hmem).mp (hcomplete.repetitions group hmem)
  · intro hnodup
    refine { count := hchecked.groups, repetitions := ?_, iterations := hchecked.iterations }
    intro group hmem
    exact (hgroup group hmem).mpr (hnodup group hmem)

/-- A table of 36 configurations with ten rows each, whose repetition numbers are those
of `repetitions` for the first configuration and 1 to 10 for the others. -/
def sampleTable (repetitions : List ℕ) : CsvFile where
  header := ["kind", "library", "codegen", "api", "test_case", "repetition", "iterations",
    "ns_per_encode"].map ascii
  records := (List.range 36).flatMap fun configuration =>
    (if configuration = 0 then repetitions else List.range' 1 10).map fun repetition =>
      [ascii "protobuf", ascii "google_protobuf", ascii "speed", decimalDigits configuration,
        ascii "one_string_ten_int64", decimalDigits repetition, ascii "1000000", ascii "50"]

theorem accepted_complete_iff_sampleTable :
    ∃ groups, acceptedGroups (ascii "gcc") (sampleTable (List.range' 1 10)).rows = .ok groups ∧
      (CompleteSets (sampleTable (List.range' 1 10)).rows ↔
        ((sampleTable (List.range' 1 10)).rows.map fun row =>
          (configuration row, repetitionItem row)).Nodup) := by
  have hsome : (acceptedGroups (ascii "gcc")
      (sampleTable (List.range' 1 10)).rows).toOption.isSome = true := by decide +kernel
  obtain ⟨groups, hgroups⟩ := exists_ok hsome
  exact ⟨groups, hgroups, accepted_complete_iff hgroups⟩

/-- A table whose first configuration has repetition 1 ten times is accepted. -/
theorem repeated_repetition_accepted :
    (∃ groups, acceptedGroups (ascii "gcc")
      (sampleTable (List.replicate 10 1)).rows = .ok groups) ∧
      ¬ CompleteSets (sampleTable (List.replicate 10 1)).rows := by
  constructor
  · have hsome : (acceptedGroups (ascii "gcc")
        (sampleTable (List.replicate 10 1)).rows).toOption.isSome = true := by decide +kernel
    exact exists_ok hsome
  · intro hcomplete
    have hfirst : ∃ group ∈ groupRows configuration (sampleTable (List.replicate 10 1)).rows,
        group.2.map (fun row => (repetitionItem row).toOption) =
          List.replicate 10 (some 1) := by decide +kernel
    obtain ⟨group, hgroup, hones⟩ := hfirst
    have hperm := (hcomplete.repetitions group hgroup).map Except.toOption
    rw [List.map_map] at hperm
    have hten : some 10 ∈ repetitionLabels.map Except.toOption := by decide
    have hmem := hperm.mem_iff.mpr hten
    change some 10 ∈ group.2.map fun row => (repetitionItem row).toOption at hmem
    rw [hones] at hmem
    exact absurd (List.eq_of_mem_replicate hmem) (by decide)

/-- The report is written only if the table of every variant is accepted. -/
theorem compilerReport_accepts {variants : List Variant} {report : Report}
    (h : compilerReport variants = .ok report) :
    ∀ variant ∈ variants, ∃ groups,
      acceptedGroups variant.name variant.raw.rows = .ok groups := by
  obtain ⟨summaries, hsummaries, -⟩ := bind_eq_ok.mp h
  intro variant hvariant
  obtain ⟨rows, -, hrows⟩ := exists_result_of_mapM hsummaries hvariant
  obtain ⟨groups, hgroups, -⟩ := bind_eq_ok.mp hrows
  exact ⟨groups, hgroups⟩

end Completeness

end ProtobufKafkaBench.CompilerReport

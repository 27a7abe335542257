import ProtobufKafkaBench.FirstMinimum
import ProtobufKafkaBench.KeyedMembers
import ProtobufKafkaBench.MeanThroughput

/-!
The fastest configuration of a payload, which three reports choose. The encoding report
replaces its choice by a strict comparison, the comparison of the architectures updates a
dictionary, and the compiler report takes the minimum of a filtered list. All of them
choose the least median and, of several, the configuration whose first row comes first.
-/
namespace ProtobufKafkaBench.FastestPayloads

open AsyncReports ByteBuffers CompilerReport CsvTables EncodingReports Exceptions FirstMinimum
open Grouping KeyedMembers

section Comparison

/-- `item` of `best`: a tuple of these three. -/
structure Item where
  median : ℚ
  key : ConfigKey
  bytes : Option Bytes
  deriving DecidableEq

def item (group : ConfigKey × List DictRow) : Except PyError Item := do
  let median ← AsyncReports.median group.2 (ascii "ns_per_encode")
  let bytes ← lastItem group.2 (ascii "bytes")
  return { median, key := group.1, bytes }

/-- The item is entered if its payload is new or the one there takes longer. -/
def enter (result : List (Option Bytes × Item)) (item : Item) : List (Option Bytes × Item) :=
  match result.lookup item.key.testCase with
  | none => assignLast item.key.testCase item result
  | some old =>
    if item.median < old.median then assignLast item.key.testCase item result else result

def best (rows : List DictRow) : Except PyError (List (Option Bytes × Item)) := do
  let groups ← groupRowsM configKey rows
  groups.foldlM (fun result group => do return enter result (← item group)) []

/-- `result[payload]`. -/
def fastest (result : List (Option Bytes × Item)) (payload : Bytes) : Except PyError Item :=
  match result.lookup (some payload) with
  | none => .error (.keyError payload)
  | some item => return item

/-- `' / '.join(key[1:4])`, which refuses a `None`. -/
def label (key : ConfigKey) : Except PyError Bytes :=
  match key.library, key.codegen, key.api with
  | some library, some codegen, some api =>
    return library ++ ascii " / " ++ codegen ++ ascii " / " ++ api
  | _, _, _ => .error .typeError

structure Line where
  payload : Bytes
  armLabel : Bytes
  armNs : ℚ
  amdLabel : Bytes
  amdNs : ℚ
  ratio : ℚ
  deriving DecidableEq

def line (arm amd : List (Option Bytes × Item)) (payload : Bytes) : Except PyError Line := do
  let arm ← fastest arm payload
  let amd ← fastest amd payload
  let armLabel ← label arm.key
  let amdLabel ← label amd.key
  let ratio ← divide amd.median arm.median
  return { payload, armLabel, armNs := arm.median, amdLabel, amdNs := amd.median, ratio }

def fastestPayloads (armRows amdRows : List DictRow) : Except PyError (List Line) := do
  let arm ← best armRows
  let amd ← best amdRows
  payloads.mapM (line arm amd)

end Comparison

section Winners

variable {rows : List DictRow} {payload : Bytes}

/-- The median time of all rows of a configuration. -/
def medianNs (rows : List DictRow) (key : ConfigKey) : ℚ :=
  (Medians.median ((withKey configuration rows key).map nsPerEncode)).getD 0

/-- The place of a configuration's first row in the file. -/
def firstRow (rows : List DictRow) (key : ConfigKey) : ℕ := (rows.map configuration).idxOf key

/-- Each of the three payloads was measured. -/
def Covers (rows : List DictRow) : Prop :=
  ∀ payload ∈ payloads, ∃ row ∈ rows, (configuration row).testCase = some payload

instance (rows : List DictRow) : Decidable (Covers rows) :=
  inferInstanceAs (Decidable (∀ payload ∈ payloads, ∃ row ∈ rows,
    (configuration row).testCase = some payload))

/-- The configuration of the payload with the least median, the first of several. -/
structure Winner (rows : List DictRow) (payload : Bytes) (key : ConfigKey) : Prop where
  measured : key ∈ rows.map configuration
  testCase : key.testCase = some payload
  least : ∀ other ∈ rows.map configuration, other.testCase = some payload →
    medianNs rows key ≤ medianNs rows other
  first : ∀ other ∈ rows.map configuration, other.testCase = some payload →
    medianNs rows other = medianNs rows key → firstRow rows key ≤ firstRow rows other

/-- The configurations of the rows with this payload, row by row. -/
def candidates (rows : List DictRow) (payload : Bytes) : List ConfigKey :=
  (rows.map configuration).filter fun key => key.testCase = some payload

theorem argmin_candidates_iff {key : ConfigKey} :
    (candidates rows payload).argmin (medianNs rows) = some key ↔ Winner rows payload key := by
  unfold candidates
  simp only [argmin_filter_eq_some_iff, decide_eq_true_eq]
  constructor
  · intro h
    obtain ⟨⟨hmeasured, htestCase⟩, hall⟩ := h
    exact {
      measured := hmeasured
      testCase := htestCase
      least := fun other hother hcase => (hall other hother hcase).1
      first := fun other hother hcase => (hall other hother hcase).2 }
  · intro h
    refine ⟨⟨h.measured, h.testCase⟩, fun other hother hcase => ?_⟩
    exact ⟨h.least other hother hcase, h.first other hother hcase⟩

/-- There is no second winner. -/
theorem Winner.unique {key other : ConfigKey} (h : Winner rows payload key)
    (hother : Winner rows payload other) : key = other :=
  Option.some.inj ((argmin_candidates_iff.mpr h).symm.trans (argmin_candidates_iff.mpr hother))

theorem exists_winner (hcovers : Covers rows) (hpayload : payload ∈ payloads) :
    ∃ key, Winner rows payload key := by
  obtain ⟨row, hrow, hcase⟩ := hcovers payload hpayload
  have hmem : configuration row ∈ candidates rows payload :=
    List.mem_filter.mpr ⟨List.mem_map_of_mem hrow, decide_eq_true hcase⟩
  cases hmin : (candidates rows payload).argmin (medianNs rows) with
  | none =>
    rw [List.argmin_eq_none.mp hmin] at hmem
    exact absurd hmem List.not_mem_nil
  | some key => exact ⟨key, argmin_candidates_iff.mp hmin⟩

theorem medianNs_of_group {group : ConfigKey × List DictRow} {median : ℚ}
    (hgroup : group ∈ groupRows configuration rows)
    (h : Medians.median (group.2.map nsPerEncode) = some median) :
    median = medianNs rows group.1 := by
  rw [medianNs, ← groupRows_values configuration rows group hgroup, h, Option.getD_some]

end Winners

section Choices

variable {rows : List DictRow} {payload : Bytes} {ι : Type} {items : List ι}
  {keyOf : ι → ConfigKey} {medianOf : ι → ℚ}

/-- One item for each configuration, in order of first appearance, with its median. -/
structure Summarizes (rows : List DictRow) (items : List ι) (keyOf : ι → ConfigKey)
    (medianOf : ι → ℚ) : Prop where
  keys : items.map keyOf = (groupRows configuration rows).map Prod.fst
  medians : ∀ item ∈ items, medianOf item = medianNs rows (keyOf item)

/-- Items that are read from the groups one by one. -/
theorem summarizes_of_mapM {f : ConfigKey × List DictRow → Except PyError ι}
    (hread : ∀ group item, f group = .ok item → keyOf item = group.1 ∧
      Medians.median (group.2.map nsPerEncode) = some (medianOf item))
    (h : (groupRows configuration rows).mapM f = .ok items) :
    Summarizes rows items keyOf medianOf where
  keys := map_eq_map_of_mapM (fun group item hitem => (hread group item hitem).1) h
  medians := by
    intro item hitem
    obtain ⟨group, hgroup, hgroup'⟩ := exists_value_of_mapM h hitem
    obtain ⟨hkey, hmedian⟩ := hread group item hgroup'
    rw [hkey]
    exact medianNs_of_group hgroup hmedian

/-- The first of the least items of a payload is that of its winner. -/
theorem Summarizes.argmin_eq (h : Summarizes rows items keyOf medianOf) {key : ConfigKey}
    (hwinner : Winner rows payload key) :
    ∃ item ∈ items, (items.filter fun item => (keyOf item).testCase = some payload).argmin
      medianOf = some item ∧ keyOf item = key := by
  have hkey : ((items.filter fun item => (keyOf item).testCase = some payload).argmin
      medianOf).map keyOf = some key := by
    rw [map_argmin_filter h.medians fun key => key.testCase = some payload, h.keys,
      argmin_keys_groupRows]
    exact argmin_candidates_iff.mpr hwinner
  obtain ⟨item, hitem, heq⟩ := Option.map_eq_some_iff.mp hkey
  exact ⟨item, List.mem_of_mem_filter (List.argmin_mem hitem), hitem, heq⟩

end Choices

section EncodingReport

open EncodingReports.Report

variable {rows : List DictRow} {payload : Bytes} {winner : ConfigKey}
  {items : List Report.Summary}

theorem summaries_summarize (h : summaries rows = .ok items) :
    Summarizes rows items Report.Summary.key Report.Summary.medianNs := by
  refine summarizes_of_mapM (fun group item hitem => ?_) (summaries_groups h)
  obtain ⟨hkey, hmedian, -⟩ := summary_eq_ok hitem
  exact ⟨hkey, hmedian⟩

theorem improve_improves :
    Improves (fun item : Report.Summary => item.key.testCase) Report.Summary.medianNs
    fun fastest item => improve item fastest := by
  intro entries item k
  induction entries with
  | nil =>
    by_cases hk : k = item.key.testCase
    · simp [improve, hk]
    · simp [improve, List.lookup_cons, beq_false_of_ne hk, hk]
  | cons entry rest ih =>
    obtain ⟨testCase, old⟩ := entry
    unfold improve
    by_cases hcase : testCase = item.key.testCase
    · subst hcase
      by_cases hk : k = item.key.testCase
      · simp [hk, apply_ite some]
      · simp [List.lookup_cons, beq_false_of_ne hk, hk]
    · by_cases hk : k = testCase
      · subst hk
        simp [hcase]
      · simp only [if_neg hcase, List.lookup_cons, beq_false_of_ne hk, ih]

/-- The loop enters for each test case the first of its least items. -/
theorem lookup_fastestByCase (items : List Report.Summary) (testCase : Option Bytes) :
    (fastestByCase items).lookup testCase =
      (items.filter fun item => item.key.testCase = testCase).argmin Report.Summary.medianNs :=
  improve_improves.lookup_foldl items testCase

theorem fastestByCase_winner (hwinner : Winner rows payload winner)
    (h : summaries rows = .ok items) :
    ((fastestByCase items).lookup (some payload)).map Report.Summary.key = some winner := by
  obtain ⟨item, -, hmin, hkey⟩ := (summaries_summarize h).argmin_eq hwinner
  rw [lookup_fastestByCase, hmin, Option.map_some, hkey]

/-- A report shows the winner, and no other configuration for the payload. -/
def Names (shown : List ConfigKey) (payload : Bytes) (winner : ConfigKey) : Prop :=
  winner ∈ shown ∧ ∀ key ∈ shown, key.testCase = some payload → key = winner

theorem mem_verdict {shown : List Report.Summary} (h : verdict items = .ok shown)
    (item : Report.Summary) :
    item ∈ shown ↔ (fastestByCase items).lookup item.key.testCase = some item := by
  obtain ⟨cases, hcases, h⟩ := bind_eq_ok.mp h
  obtain rfl := Except.ok.inj h
  rw [List.mem_filterMap]
  constructor
  · intro hmem
    obtain ⟨testCase, -, hlookup⟩ := hmem
    have hmin := (lookup_fastestByCase items testCase).symm.trans hlookup
    have hcase := of_decide_eq_true (List.mem_filter.mp (List.argmin_mem hmin)).2
    rw [hcase]
    exact hlookup
  · intro hlookup
    refine ⟨item.key.testCase, ?_, hlookup⟩
    rw [mem_sortedTexts hcases]
    exact List.mem_map.mpr ⟨_, mem_of_lookup hlookup, rfl⟩

theorem verdict_names (hwinner : Winner rows payload winner) (h : summaries rows = .ok items)
    {shown : List Report.Summary} (hshown : verdict items = .ok shown) :
    Names (shown.map Report.Summary.key) payload winner := by
  obtain ⟨item, hlookup, hkey⟩ := Option.map_eq_some_iff.mp (fastestByCase_winner hwinner h)
  have hcase : item.key.testCase = some payload := by rw [hkey, hwinner.testCase]
  constructor
  · refine List.mem_map.mpr ⟨item, ?_, hkey⟩
    rw [mem_verdict hshown, hcase]
    exact hlookup
  · intro key hkey' hpayload
    obtain ⟨other, hother, rfl⟩ := List.mem_map.mp hkey'
    rw [mem_verdict hshown, hpayload, hlookup] at hother
    obtain rfl := Option.some.inj hother
    exact hkey

theorem report_names (hwinner : Winner rows payload winner) {csv : CsvFile} {metadata : Bytes}
    {output : Output} (hrows : csv.rows = rows) (h : report csv metadata = .ok output) :
    Names (output.verdict.map Report.Summary.key) payload winner := by
  subst hrows
  obtain ⟨items, hitems, h⟩ := bind_eq_ok.mp h
  obtain ⟨shown, hshown, h⟩ := bind_eq_ok.mp h
  obtain ⟨full, -, h⟩ := bind_eq_ok.mp h
  obtain ⟨protobuf, -, h⟩ := bind_eq_ok.mp h
  obtain ⟨json, -, h⟩ := bind_eq_ok.mp h
  obtain rfl := Except.ok.inj h
  exact verdict_names hwinner hitems hshown

end EncodingReport

section Architectures

variable {rows other : List DictRow} {payload : Bytes} {winner : ConfigKey}
  {result : List (Option Bytes × Item)} {lines : List Line}

theorem median_eq_ok {median : ℚ}
    (h : AsyncReports.median rows (ascii "ns_per_encode") = .ok median) :
    Medians.median (rows.map nsPerEncode) = some median := by
  obtain ⟨values, hvalues, h⟩ := bind_eq_ok.mp h
  rw [← floats_eq_ok hvalues]
  cases hmedian : Medians.median values with
  | none =>
    rw [hmedian] at h
    cases h
  | some value =>
    rw [hmedian] at h
    exact congrArg some (Except.ok.inj h)

theorem item_eq_ok {group : ConfigKey × List DictRow} {entry : Item}
    (h : item group = .ok entry) :
    entry.key = group.1 ∧ Medians.median (group.2.map nsPerEncode) = some entry.median := by
  obtain ⟨median, hmedian, h⟩ := bind_eq_ok.mp h
  obtain ⟨bytes, -, h⟩ := bind_eq_ok.mp h
  obtain rfl := Except.ok.inj h
  exact ⟨rfl, median_eq_ok hmedian⟩

/-- The dictionary is filled with one item for each configuration. -/
theorem best_eq_ok (h : best rows = .ok result) :
    ∃ items, Summarizes rows items Item.key Item.median ∧ items.foldl enter [] = result := by
  obtain ⟨groups, hgroups, h⟩ := bind_eq_ok.mp h
  obtain rfl := groupRows_of_groupRowsM (fun _ _ => configKey_eq_ok) hgroups
  obtain ⟨items, hitems, hfold⟩ := foldlM_eq_ok h
  exact ⟨items, summarizes_of_mapM (fun group entry hentry => item_eq_ok hentry) hitems, hfold⟩

theorem enter_improves : Improves (fun item : Item => item.key.testCase) Item.median enter := by
  intro entries item k
  unfold enter
  by_cases hk : k = item.key.testCase
  · subst hk
    rw [if_pos rfl]
    cases hold : entries.lookup item.key.testCase with
    | none => exact lookup_assignLast.trans (if_pos rfl)
    | some old =>
      by_cases hlt : item.median < old.median
      · simp [hlt, lookup_assignLast]
      · simp [hlt, hold]
  · rw [if_neg hk]
    cases entries.lookup item.key.testCase with
    | none => exact lookup_assignLast.trans (if_neg hk)
    | some old =>
      by_cases hlt : item.median < old.median
      · simp [hlt, lookup_assignLast, hk]
      · simp [hlt]

theorem fastest_winner (hwinner : Winner rows payload winner) (h : best rows = .ok result) :
    ∃ item, fastest result payload = .ok item ∧ item.key = winner ∧
      item.median = medianNs rows winner := by
  obtain ⟨items, hitems, rfl⟩ := best_eq_ok h
  obtain ⟨item, hitem, hmin, hkey⟩ := hitems.argmin_eq hwinner
  have hlookup := (enter_improves.lookup_foldl items (some payload)).trans hmin
  refine ⟨item, ?_, hkey, hkey ▸ hitems.medians item hitem⟩
  rw [fastest, hlookup]
  rfl

/-- A label and a time of a line are those of the item that a dictionary has. -/
def Shows (result : List (Option Bytes × Item)) (payload text : Bytes) (ns : ℚ) : Prop :=
  ∃ item, fastest result payload = .ok item ∧ label item.key = .ok text ∧ ns = item.median

theorem line_eq_ok {arm amd : List (Option Bytes × Item)} {shown : Line}
    (h : line arm amd payload = .ok shown) :
    shown.payload = payload ∧ Shows arm payload shown.armLabel shown.armNs ∧
      Shows amd payload shown.amdLabel shown.amdNs := by
  obtain ⟨armItem, harm, h⟩ := bind_eq_ok.mp h
  obtain ⟨amdItem, hamd, h⟩ := bind_eq_ok.mp h
  obtain ⟨armLabel, harmLabel, h⟩ := bind_eq_ok.mp h
  obtain ⟨amdLabel, hamdLabel, h⟩ := bind_eq_ok.mp h
  obtain ⟨ratio, -, h⟩ := bind_eq_ok.mp h
  obtain rfl := Except.ok.inj h
  exact ⟨rfl, ⟨armItem, harm, harmLabel, rfl⟩, ⟨amdItem, hamd, hamdLabel, rfl⟩⟩

theorem Shows.eq_winner {text : Bytes} {ns : ℚ} (h : Shows result payload text ns)
    (hwinner : Winner rows payload winner) (hbest : best rows = .ok result) :
    label winner = .ok text ∧ ns = medianNs rows winner := by
  obtain ⟨item, hitem, hlabel, hns⟩ := h
  obtain ⟨chosen, hchosen, hkey, hmedian⟩ := fastest_winner hwinner hbest
  obtain rfl := Except.ok.inj (hitem.symm.trans hchosen)
  exact ⟨hkey ▸ hlabel, hns.trans hmedian⟩

/-- Every payload has a line, with the items that the two dictionaries have for it. -/
theorem fastestPayloads_eq_ok {armRows amdRows : List DictRow}
    (h : fastestPayloads armRows amdRows = .ok lines) :
    ∃ arm amd, best armRows = .ok arm ∧ best amdRows = .ok amd ∧
      (∀ payload ∈ payloads, ∃ shown ∈ lines, shown.payload = payload) ∧
      ∀ shown ∈ lines, line arm amd shown.payload = .ok shown := by
  obtain ⟨arm, harm, h⟩ := bind_eq_ok.mp h
  obtain ⟨amd, hamd, h⟩ := bind_eq_ok.mp h
  refine ⟨arm, amd, harm, hamd, ?_, ?_⟩
  · intro payload hpayload
    obtain ⟨shown, hshown, hline⟩ := exists_result_of_mapM h hpayload
    exact ⟨shown, hshown, (line_eq_ok hline).1⟩
  · intro shown hshown
    obtain ⟨payload, -, hline⟩ := exists_value_of_mapM h hshown
    rw [(line_eq_ok hline).1]
    exact hline

/-- The line of the payload has the winner's label and median on the left. -/
theorem fastestPayloads_arm (hwinner : Winner rows payload winner)
    (h : fastestPayloads rows other = .ok lines) :
    ∀ shown ∈ lines, shown.payload = payload →
      label winner = .ok shown.armLabel ∧ shown.armNs = medianNs rows winner := by
  obtain ⟨arm, amd, harm, -, -, hlines⟩ := fastestPayloads_eq_ok h
  intro shown hshown hpayload
  obtain ⟨-, hshows, -⟩ := line_eq_ok (hlines shown hshown)
  rw [hpayload] at hshows
  exact hshows.eq_winner hwinner harm

/-- And on the right where the rows are those of the other architecture. -/
theorem fastestPayloads_amd (hwinner : Winner rows payload winner)
    (h : fastestPayloads other rows = .ok lines) :
    ∀ shown ∈ lines, shown.payload = payload →
      label winner = .ok shown.amdLabel ∧ shown.amdNs = medianNs rows winner := by
  obtain ⟨arm, amd, -, hamd, -, hlines⟩ := fastestPayloads_eq_ok h
  intro shown hshown hpayload
  obtain ⟨-, -, hshows⟩ := line_eq_ok (hlines shown hshown)
  rw [hpayload] at hshows
  exact hshows.eq_winner hwinner hamd

end Architectures

section Compilers

variable {variants : List Variant} {variant : Variant} {payload : Bytes} {winner : ConfigKey}

theorem variantSummaries_summarize {items : List CompilerReport.Summary}
    (h : variantSummaries variant = .ok items) :
    Summarizes variant.raw.rows items CompilerReport.Summary.key
      CompilerReport.Summary.median := by
  refine summarizes_of_mapM (fun group item hitem => ?_) (variantSummaries_groups h)
  obtain ⟨hkey, hmedian, -⟩ := summary_eq_ok hitem
  exact ⟨hkey, hmedian⟩

/-- No other directory shows this name. -/
def Alone (variants : List Variant) (variant : Variant) : Prop :=
  variants.filter (fun other => shownName other = shownName variant) = [variant]

/-- The candidates of a name that only one variant has are that variant's. -/
theorem Alone.summaries (halone : Alone variants variant)
    {summaries : List (List CompilerReport.Summary)}
    (h : variants.mapM variantSummaries = .ok summaries) :
    ∃ items, variantSummaries variant = .ok items ∧
      summaries.flatten.filter (fun item => item.variant = shownName variant) = items := by
  have hkept : ∀ other items, variantSummaries other = .ok items → ∀ item ∈ items,
      decide (item.variant = shownName variant) = decide (shownName other = shownName variant) := by
    intro other items hitems item hitem
    rw [variantSummaries_shownName hitems item hitem]
  obtain ⟨chosen, hchosen, hflatten⟩ := filter_flatten_of_mapM hkept h
  rw [halone] at hchosen
  obtain ⟨items, hitems, hvariant⟩ := exists_result_of_mapM hchosen List.mem_cons_self
  refine ⟨items, hvariant, hflatten.trans ?_⟩
  have hsingle := mapM_eq_ok.mp hchosen
  rw [List.map_singleton, hvariant] at hsingle
  cases chosen with
  | nil => cases hitems
  | cons first rest =>
    obtain ⟨hfirst, hrest⟩ := List.cons.inj hsingle
    obtain rfl := Except.ok.inj hfirst
    rw [List.map_eq_nil_iff.mp hrest.symm, List.flatten_singleton]

/-- `min` over the candidates chooses the winner's summary. -/
theorem best_winner (halone : Alone variants variant)
    (hwinner : Winner variant.raw.rows payload winner)
    {summaries : List (List CompilerReport.Summary)}
    (h : variants.mapM variantSummaries = .ok summaries) :
    ∃ item, CompilerReport.best summaries.flatten (shownName variant) (some payload) = some item ∧
      item.key = winner := by
  obtain ⟨items, hitems, hflatten⟩ := halone.summaries h
  obtain ⟨item, -, hmin, hkey⟩ := (variantSummaries_summarize hitems).argmin_eq hwinner
  refine ⟨item, ?_, hkey⟩
  rw [← hflatten, List.filter_filter] at hmin
  rw [CompilerReport.best, ← hmin]
  congr 2
  funext row
  rw [Bool.decide_and, Bool.and_comm]

theorem compilerReport_names (halone : Alone variants variant)
    (hwinner : Winner variant.raw.rows payload winner) {report : CompilerReport.Report}
    (h : compilerReport variants = .ok report) :
    Names ((report.fastest.filter fun line => line.variant = shownName variant).map
      FastestLine.best) payload winner := by
  obtain ⟨summaries, hsummaries, hfastest⟩ := compilerReport_fastest h
  obtain ⟨item, hitem, hkey⟩ := best_winner halone hwinner hsummaries
  obtain ⟨hlines, hall⟩ := fastestLines_eq_ok hfastest
  have hcase : item.key.testCase = some payload := by rw [hkey, hwinner.testCase]
  constructor
  · obtain ⟨hmem, hname⟩ := best_mem hitem
    obtain ⟨line, hline, hfast⟩ := hall item hmem
    rw [hname, hcase] at hfast
    obtain ⟨hvariant, -, chosen, hchosen, hbest, -⟩ := fastestLine_eq_ok hfast
    obtain rfl := Option.some.inj (hitem.symm.trans hchosen)
    refine List.mem_map.mpr ⟨line, ?_, hbest.trans hkey⟩
    exact List.mem_filter.mpr ⟨hline, decide_eq_true hvariant⟩
  · intro key hmem hpayload
    obtain ⟨line, hline, rfl⟩ := List.mem_map.mp hmem
    obtain ⟨hline, hvariant⟩ := List.mem_filter.mp hline
    obtain ⟨-, -, chosen, hchosen, hbest, -⟩ := fastestLine_eq_ok (hlines line hline)
    have hfound := (of_decide_eq_true (List.mem_filter.mp (List.argmin_mem hchosen)).2).2
    rw [of_decide_eq_true hvariant, ← hfound, ← hbest, hpayload, hitem] at hchosen
    obtain rfl := Option.some.inj hchosen
    exact hbest.trans hkey

end Compilers

section Agreement

variable {rows : List DictRow} {payload : Bytes} {winner : ConfigKey}

/-- What the three reports show for the payload, whatever else they are made of. -/
structure ReportsName (rows : List DictRow) (payload : Bytes) (winner : ConfigKey) : Prop where
  fastestByCase : ∀ items, Report.summaries rows = .ok items →
    ((Report.fastestByCase items).lookup (some payload)).map Report.Summary.key = some winner
  verdict : ∀ csv metadata output, csv.rows = rows → Report.report csv metadata = .ok output →
    Names (output.verdict.map Report.Summary.key) payload winner
  best : ∀ result, best rows = .ok result → (fastest result payload).map Item.key = .ok winner
  arm : ∀ other lines, fastestPayloads rows other = .ok lines →
    (∃ shown ∈ lines, shown.payload = payload) ∧ ∀ shown ∈ lines, shown.payload = payload →
      label winner = .ok shown.armLabel ∧ shown.armNs = medianNs rows winner
  amd : ∀ other lines, fastestPayloads other rows = .ok lines →
    (∃ shown ∈ lines, shown.payload = payload) ∧ ∀ shown ∈ lines, shown.payload = payload →
      label winner = .ok shown.amdLabel ∧ shown.amdNs = medianNs rows winner
  compiler : ∀ variants variant report, variant.raw.rows = rows → Alone variants variant →
    compilerReport variants = .ok report →
    Names ((report.fastest.filter fun line => line.variant = shownName variant).map
      FastestLine.best) payload winner

/-- Every report names the same configuration: the one with the least median among those
of the payload and, among equals, the one whose first row comes first. -/
theorem reports_name_winner (hcovers : Covers rows) :
    ∀ payload ∈ payloads, ∃ winner, Winner rows payload winner ∧
      ReportsName rows payload winner := by
  intro payload hpayload
  obtain ⟨winner, hwinner⟩ := exists_winner hcovers hpayload
  refine ⟨winner, hwinner, ?_⟩
  exact {
    fastestByCase := fun items h => fastestByCase_winner hwinner h
    verdict := fun csv metadata output hrows h => report_names hwinner hrows h
    best := by
      intro result h
      obtain ⟨item, hitem, hkey, -⟩ := fastest_winner hwinner h
      rw [hitem, ← hkey]
      rfl
    arm := by
      intro other lines h
      obtain ⟨-, -, -, -, hline, -⟩ := fastestPayloads_eq_ok h
      exact ⟨hline payload hpayload, fastestPayloads_arm hwinner h⟩
    amd := by
      intro other lines h
      obtain ⟨-, -, -, -, hline, -⟩ := fastestPayloads_eq_ok h
      exact ⟨hline payload hpayload, fastestPayloads_amd hwinner h⟩
    compiler := by
      intro variants variant report hrows halone h
      subst hrows
      exact compilerReport_names halone hwinner h }

/-- Configurations of the three payloads in turn. The first of each payload takes longer,
and all others take the same time. -/
def tiedTable (configurations repetitions : ℕ) : CsvFile where
  header := ["kind", "library", "codegen", "api", "test_case", "repetition", "iterations",
    "bytes", "ns_per_encode", "encodes_per_second"].map ascii
  records := (List.range configurations).flatMap fun configuration =>
    (List.range' 1 repetitions).map fun repetition =>
      [ascii "protobuf", ascii "google_protobuf", ascii "speed", decimalDigits configuration,
        payloads.getD (configuration % 3) [], decimalDigits repetition, ascii "1000000",
        ascii "49", ascii (if configuration < 3 then "60" else "50"), ascii "20000000"]

theorem reports_name_winner_tiedTable :
    (∃ winner, Winner (tiedTable 9 2).rows (ascii "one_string_ten_int64") winner ∧
      (∃ output, Report.report (tiedTable 9 2) [] = .ok output ∧
        Names (output.verdict.map Report.Summary.key) (ascii "one_string_ten_int64") winner) ∧
      ∃ lines, fastestPayloads (tiedTable 9 2).rows (tiedTable 9 2).rows = .ok lines ∧
        ∃ shown ∈ lines, label winner = .ok shown.armLabel ∧ label winner = .ok shown.amdLabel) ∧
    ∃ winner, Winner (tiedTable 36 10).rows (ascii "one_string_ten_int64") winner ∧
      ∃ report, compilerReport [⟨ascii "gcc", tiedTable 36 10, []⟩] = .ok report ∧
        Names ((report.fastest.filter fun line => line.variant = ascii "gcc").map
          FastestLine.best) (ascii "one_string_ten_int64") winner := by
  have hpayload : ascii "one_string_ten_int64" ∈ payloads := by decide
  constructor
  · have hcovers : Covers (tiedTable 9 2).rows := by decide +kernel
    obtain ⟨winner, hwinner, hnames⟩ := reports_name_winner hcovers _ hpayload
    obtain ⟨output, houtput⟩ := exists_ok
      (show (Report.report (tiedTable 9 2) []).toOption.isSome = true by decide +kernel)
    obtain ⟨lines, hlines⟩ := exists_ok
      (show (fastestPayloads (tiedTable 9 2).rows (tiedTable 9 2).rows).toOption.isSome = true by
        decide +kernel)
    obtain ⟨⟨shown, hshown, hcase⟩, harm⟩ := hnames.arm _ lines hlines
    obtain ⟨-, hamd⟩ := hnames.amd _ lines hlines
    refine ⟨winner, hwinner, ⟨output, houtput, ?_⟩, lines, hlines, shown, hshown, ?_, ?_⟩
    · exact hnames.verdict (tiedTable 9 2) [] output rfl houtput
    · exact (harm shown hshown hcase).1
    · exact (hamd shown hshown hcase).1
  · have hcovers : Covers (tiedTable 36 10).rows := by decide +kernel
    obtain ⟨winner, hwinner, hnames⟩ := reports_name_winner hcovers _ hpayload
    obtain ⟨report, hreport⟩ := exists_ok
      (show (compilerReport [⟨ascii "gcc", tiedTable 36 10, []⟩]).toOption.isSome = true by
        decide +kernel)
    have halone : Alone [⟨ascii "gcc", tiedTable 36 10, []⟩] ⟨ascii "gcc", tiedTable 36 10, []⟩ :=
      List.filter_cons_of_pos (decide_eq_true rfl)
    exact ⟨winner, hwinner, report, hreport, hnames.compiler _ _ report rfl halone hreport⟩

end Agreement

end ProtobufKafkaBench.FastestPayloads

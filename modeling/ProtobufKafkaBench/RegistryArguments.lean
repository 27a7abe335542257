import ProtobufKafkaBench.CommandLine
import Mathlib.Data.List.TakeWhile

/-!
Command-line arguments of the schema registry benchmark, and what becomes of the
numbers in them. A number is kept exactly if it is written in digits alone and
fits its field: signs and trailing text are accepted as well, and the two counts
of repetitions are cut to 32 bits before their size is checked.
-/
namespace ProtobufKafkaBench.RegistryArguments

open Exceptions ByteBuffers CommandLine

section Parsing

structure Config where
  iterations : BitVec 64 := 1000000
  repetitions : BitVec 32 := 10
  warmupIterations : BitVec 64 := 10000
  networkRepetitions : BitVec 32 := 10
  registryUrl : Bytes := ascii "http://schema-registry:8081"
  failureUrl : Bytes := ascii "http://schema-registry:65530"
  username : Bytes := []
  password : Bytes := []
  insecureTls : Bool := false
  csvPath : Bytes := ascii "/work/results/schema_registry_raw.csv"
  metadataPath : Bytes := ascii "/work/results/schema_registry_metadata.txt"

/-- The comparisons of the argument with the flags, in the order they are made. -/
def flagTable : List (Bytes × Flag Config) :=
  [(ascii "--iterations", .takesValue fun config value => do
      return { config with iterations := ← stoull value }),
    (ascii "--repetitions", .takesValue fun config value => do
      return { config with repetitions := (← stoul value).setWidth 32 }),
    (ascii "--warmup-iterations", .takesValue fun config value => do
      return { config with warmupIterations := ← stoull value }),
    (ascii "--network-repetitions", .takesValue fun config value => do
      return { config with networkRepetitions := (← stoul value).setWidth 32 }),
    (ascii "--registry-url", .takesValue fun config value =>
      .ok { config with registryUrl := value }),
    (ascii "--failure-url", .takesValue fun config value =>
      .ok { config with failureUrl := value }),
    (ascii "--username", .takesValue fun config value => .ok { config with username := value }),
    (ascii "--password", .takesValue fun config value => .ok { config with password := value }),
    (ascii "--insecure-tls", .switch fun config => { config with insecureTls := true }),
    (ascii "--csv", .takesValue fun config value => .ok { config with csvPath := value }),
    (ascii "--metadata", .takesValue fun config value =>
      .ok { config with metadataPath := value })]

def flags (arg : Bytes) : Option (Flag Config) := flagTable.lookup arg

/-- The check after the loop over the arguments. -/
def checkConfig (config : Config) : Except CliError Config :=
  if config.iterations.toNat < 1000000 ∨ config.repetitions.toNat < 10 ∨
      config.networkRepetitions.toNat < 10 then
    .error (.runtimeError (ascii
      "steady-state iterations/repetitions and network repetitions are undersized"))
  else .ok config

def parseArgs (args : List Bytes) : Except CliError Config := do
  checkConfig (← parseLoop flags {} args)

end Parsing

section Numbers

/-- A field that an argument is converted for: its width, the least value the check
lets pass, and the assignment, which narrows to the width. -/
structure NumericField where
  flag : Bytes
  bits : ℕ
  minimum : ℕ
  get : Config → ℕ
  set : Config → BitVec 64 → Config

def numericFields : List NumericField :=
  [{ flag := ascii "--iterations", bits := 64, minimum := 1000000
     get := fun config => config.iterations.toNat
     set := fun config n => { config with iterations := n } },
    { flag := ascii "--repetitions", bits := 32, minimum := 10
      get := fun config => config.repetitions.toNat
      set := fun config n => { config with repetitions := n.setWidth 32 } },
    { flag := ascii "--warmup-iterations", bits := 64, minimum := 0
      get := fun config => config.warmupIterations.toNat
      set := fun config n => { config with warmupIterations := n } },
    { flag := ascii "--network-repetitions", bits := 32, minimum := 10
      get := fun config => config.networkRepetitions.toNat
      set := fun config n => { config with networkRepetitions := n.setWidth 32 } }]

def numericFlags : List Bytes := numericFields.map NumericField.flag

/-- What a text becomes in a field of this width. -/
def convert (bits : ℕ) (value : Bytes) : Except CliError ℕ :=
  (stoull value).map fun n => n.toNat % 2 ^ bits

/-- A decimal number in digits alone that fits this many bits. -/
def Plain (bits : ℕ) (value : Bytes) : Prop :=
  value ≠ [] ∧ (∀ byte ∈ value, isDigit byte) ∧ digitsValue value < 2 ^ bits

variable {field other : NumericField} {config result : Config} {token : Bytes × Bytes}

theorem bits_le (hfield : field ∈ numericFields) : field.bits ≤ 64 := by
  revert field
  simp [numericFields]

theorem get_set (hfield : field ∈ numericFields) {n : BitVec 64} :
    field.get (field.set config n) = n.toNat % 2 ^ field.bits := by
  revert field
  have hn : n.toNat % 2 ^ 64 = n.toNat := Nat.mod_eq_of_lt n.isLt
  simp only [numericFields, List.forall_mem_cons]
  exact ⟨hn.symm, BitVec.toNat_setWidth 32 n, hn.symm, BitVec.toNat_setWidth 32 n, by simp⟩

/-- An assignment is to the field of its flag alone. -/
theorem get_set_of_ne (hfield : field ∈ numericFields) (hother : other ∈ numericFields)
    (hne : other.flag ≠ field.flag) {n : BitVec 64} :
    field.get (other.set config n) = field.get config := by
  simp only [numericFields, List.mem_cons, List.not_mem_nil, or_false] at hfield hother
  obtain rfl | rfl | rfl | rfl := hfield <;> obtain rfl | rfl | rfl | rfl := hother <;>
    first | rfl | exact absurd rfl hne

theorem flag_injective (hfield : field ∈ numericFields) (hother : other ∈ numericFields)
    (h : field.flag = other.flag) : field = other := by
  have hnodup : numericFlags.Nodup := by decide
  exact List.inj_on_of_nodup_map hnodup hfield hother h

/-- A flag of the table either converts a number into its own field or leaves all
four numbers alone. -/
theorem storeToken_cases (h : token.1 ∈ flagTable.map Prod.fst) :
    (∃ field ∈ numericFields, token.1 = field.flag ∧ ∀ config,
        storeToken flags config token = (stoull token.2).map (field.set config)) ∨
      (token.1 ∉ numericFlags ∧ ∀ config, ∃ result, storeToken flags config token = .ok result ∧
        ∀ field ∈ numericFields, field.get result = field.get config) := by
  obtain ⟨name, value⟩ := token
  have htext : ∀ {config result : Config}, result.iterations = config.iterations →
      result.repetitions = config.repetitions →
      result.warmupIterations = config.warmupIterations →
      result.networkRepetitions = config.networkRepetitions →
      ∀ field ∈ numericFields, field.get result = field.get config := by
    intro config result hiterations hrepetitions hwarmup hnetwork
    simp [numericFields, hiterations, hrepetitions, hwarmup, hnetwork]
  dsimp only at h ⊢
  simp only [flagTable, List.map_cons, List.map_nil, List.mem_cons, List.not_mem_nil,
    or_false] at h
  obtain rfl | rfl | rfl | rfl | rfl | rfl | rfl | rfl | rfl | rfl | rfl := h
  · exact .inl ⟨numericFields[0], List.getElem_mem _, rfl, fun _ => rfl⟩
  · exact .inl ⟨numericFields[1], List.getElem_mem _, rfl, fun _ => rfl⟩
  · exact .inl ⟨numericFields[2], List.getElem_mem _, rfl, fun _ => rfl⟩
  · exact .inl ⟨numericFields[3], List.getElem_mem _, rfl, fun _ => rfl⟩
  all_goals exact .inr ⟨by decide, fun _ => ⟨_, rfl, htext rfl rfl rfl rfl⟩⟩

theorem storeToken_unknown (h : token.1 ∉ flagTable.map Prod.fst) :
    ∃ error, storeToken flags config token = .error error := by
  have hnone : flags token.1 = none := by
    rw [flags, List.lookup_eq_none_iff]
    intro entry hentry
    exact bne_iff_ne.mpr fun heq => h (heq ▸ List.mem_map_of_mem hentry)
  rw [storeToken, hnone]
  exact ⟨_, rfl⟩

/-- A known flag, and for a number a text that the library reads one from. -/
def Readable (token : Bytes × Bytes) : Prop :=
  token.1 ∈ flagTable.map Prod.fst ∧
    (token.1 ∈ numericFlags → ∃ n, stoull token.2 = .ok n)

theorem exists_storeToken_iff :
    (∃ result, storeToken flags config token = .ok result) ↔ Readable token := by
  by_cases hknown : token.1 ∈ flagTable.map Prod.fst
  · obtain ⟨field, hfield, hname, hstore⟩ | ⟨htext, hstore⟩ := storeToken_cases hknown
    · have hnumeric : token.1 ∈ numericFlags := hname ▸ List.mem_map_of_mem hfield
      rw [hstore]
      cases hvalue : stoull token.2 with
      | error error => simp [Readable, hknown, hnumeric, hvalue, Except.map]
      | ok n => simp [Readable, hknown, hvalue, Except.map]
    · obtain ⟨result, hresult, -⟩ := hstore config
      simp [Readable, hknown, htext, hresult]
  · obtain ⟨error, herror⟩ := @storeToken_unknown config token hknown
    simp [Readable, hknown, herror]

theorem exists_foldlM_iff {given : List (Bytes × Bytes)} :
    (∃ result, given.foldlM (storeToken flags) config = .ok result) ↔
      ∀ token ∈ given, Readable token :=
  exists_foldlM_ok_iff fun config token => @exists_storeToken_iff config token

theorem storeToken_sets {value : Bytes} (hfield : field ∈ numericFields)
    (h : storeToken flags config (field.flag, value) = .ok result) :
    convert field.bits value = .ok (field.get result) := by
  have hreadable := exists_storeToken_iff.mp ⟨result, h⟩
  obtain ⟨other, hother, hname, hstore⟩ | ⟨htext, -⟩ := storeToken_cases hreadable.1
  · obtain rfl := flag_injective hfield hother hname
    rw [hstore] at h
    obtain ⟨n, hn, rfl⟩ := map_eq_ok.mp h
    rw [get_set hfield]
    exact map_eq_ok.mpr ⟨n, hn, rfl⟩
  · exact absurd (List.mem_map_of_mem hfield) htext

theorem storeToken_frame (hfield : field ∈ numericFields) (hne : token.1 ≠ field.flag)
    (h : storeToken flags config token = .ok result) : field.get result = field.get config := by
  have hreadable := exists_storeToken_iff.mp ⟨result, h⟩
  obtain ⟨other, hother, hname, hstore⟩ | ⟨-, hstore⟩ := storeToken_cases hreadable.1
  · rw [hstore] at h
    obtain ⟨n, -, rfl⟩ := map_eq_ok.mp h
    exact get_set_of_ne hfield hother (hname ▸ hne)
  · obtain ⟨kept, hkept, hsame⟩ := hstore config
    obtain rfl := Except.ok.inj (h.symm.trans hkept)
    exact hsame field hfield

/-- What the tokens leave in a field. -/
def stored (given : List (Bytes × Bytes)) (field : NumericField) : Except CliError ℕ :=
  match lastValue given field.flag with
  | none => .ok (field.get {})
  | some value => convert field.bits value

theorem stored_eq {given : List (Bytes × Bytes)} (hfield : field ∈ numericFields)
    (h : given.foldlM (storeToken flags) {} = .ok result) :
    stored given field = .ok (field.get result) := by
  have hlast := lastValue_decides (fun _ _ _ => storeToken_sets hfield)
    (fun _ _ _ => storeToken_frame hfield) h
  rw [stored]
  cases hvalue : lastValue given field.flag with
  | none =>
    rw [hvalue] at hlast
    exact congrArg Except.ok hlast.symm
  | some value =>
    rw [hvalue] at hlast
    exact hlast

theorem checkConfig_eq_ok_iff :
    checkConfig config = .ok result ↔
      (∀ field ∈ numericFields, field.minimum ≤ field.get config) ∧ config = result := by
  rw [checkConfig, guard_eq_ok, Except.ok.injEq]
  simp [numericFields]

/-- The arguments that are accepted: known flags with their values, texts that numbers
can be read from, and numbers that pass the check as they are stored. -/
def Accepted (args : List Bytes) : Prop :=
  ∃ given, tokens flags args = some given ∧ (∀ token ∈ given, Readable token) ∧
    ∀ field ∈ numericFields, ∃ n, stored given field = .ok n ∧ field.minimum ≤ n

variable {args : List Bytes}

theorem parseArgs_eq_ok (h : parseArgs args = .ok config) :
    ∃ given, tokens flags args = some given ∧ (∀ token ∈ given, Readable token) ∧
      ∀ field ∈ numericFields,
        stored given field = .ok (field.get config) ∧ field.minimum ≤ field.get config := by
  obtain ⟨parsed, hparsed, hcheck⟩ := bind_eq_ok.mp h
  obtain ⟨hminimum, rfl⟩ := checkConfig_eq_ok_iff.mp hcheck
  obtain ⟨given, hgiven, hstored⟩ := parseLoop_eq_ok_iff.mp hparsed
  have hreadable := exists_foldlM_iff.mp ⟨_, hstored⟩
  exact ⟨given, hgiven, hreadable, fun field hfield =>
    ⟨stored_eq hfield hstored, hminimum field hfield⟩⟩

theorem parseArgs_accepted_iff : (∃ config, parseArgs args = .ok config) ↔ Accepted args := by
  constructor
  · intro h
    obtain ⟨config, hconfig⟩ := h
    obtain ⟨given, hgiven, hreadable, hfields⟩ := parseArgs_eq_ok hconfig
    exact ⟨given, hgiven, hreadable, fun field hfield => ⟨_, hfields field hfield⟩⟩
  · intro h
    obtain ⟨given, hgiven, hreadable, hfields⟩ := h
    obtain ⟨config, hconfig⟩ := (@exists_foldlM_iff {} given).mpr hreadable
    have hminimum : ∀ field ∈ numericFields, field.minimum ≤ field.get config := by
      intro field hfield
      obtain ⟨n, hn, hle⟩ := hfields field hfield
      rw [stored_eq hfield hconfig] at hn
      rwa [Except.ok.inj hn]
    have hparsed := parseLoop_eq_ok_iff.mpr ⟨given, hgiven, hconfig⟩
    exact ⟨config, bind_eq_ok.mpr ⟨config, hparsed, checkConfig_eq_ok_iff.mpr ⟨hminimum, rfl⟩⟩⟩

/-- A text in digits alone is read as the number it writes. -/
theorem convert_plain {bits : ℕ} {value : Bytes} (hbits : bits ≤ 64) (h : Plain bits value) :
    convert bits value = .ok (digitsValue value) := by
  obtain ⟨hne, hdigits, hfits⟩ := h
  have hstart : value.dropWhile isSpace = value := by
    cases value with
    | nil => rfl
    | cons byte rest =>
      have hdigit := hdigits byte List.mem_cons_self
      apply List.dropWhile_cons_of_neg
      simp only [isDigit, isSpace, decide_eq_true_eq] at hdigit ⊢
      intro hspace
      obtain rfl | ⟨-, hle⟩ := hspace
      · exact absurd hdigit.1 (by decide)
      · exact absurd (UInt8.le_trans hdigit.1 hle) (by decide)
  have hwhole : value.takeWhile isDigit = value := List.takeWhile_eq_self_iff.mpr hdigits
  have hnumeral : numeral value = some ([], digitsValue value) := by
    rw [numeral_unsigned_iff, UnsignedAt, hstart, hwhole]
    exact ⟨hne, rfl⟩
  have hlarge : digitsValue value < 2 ^ 64 :=
    hfits.trans_le (Nat.pow_le_pow_right (by decide) hbits)
  have hread := stoull_eq_ok_iff.mpr ⟨[], _, hnumeral, hlarge, rfl⟩
  refine map_eq_ok.mpr ⟨_, hread, ?_⟩
  rw [if_neg (by decide), BitVec.toNat_ofNat, Nat.mod_eq_of_lt hlarge, Nat.mod_eq_of_lt hfits]

end Numbers

section Kept

variable {args : List Bytes}

/-- The numbers of a configuration are the whole texts after the last occurrences of
their flags, or the defaults, and large enough. -/
def Kept (args : List Bytes) (config : Config) : Prop :=
  ∃ given, tokens flags args = some given ∧ ∀ field ∈ numericFields,
    field.minimum ≤ field.get config ∧
      match lastValue given field.flag with
      | none => field.get config = field.get {}
      | some value => Plain field.bits value ∧ field.get config = digitsValue value

/-- A parse returns such a configuration only, and throws if there is none. -/
def NumbersKept (args : List Bytes) : Prop :=
  (∀ config, parseArgs args = .ok config → Kept args config) ∧
    ((¬ ∃ config, Kept args config) → ∃ error, parseArgs args = .error error)

/-- If the arguments are accepted, the last text given for a number is in digits alone
and fits its field. -/
def Unaltered (args : List Bytes) : Prop :=
  Accepted args → ∀ given, tokens flags args = some given → ∀ field ∈ numericFields,
    ∀ value, lastValue given field.flag = some value → Plain field.bits value

theorem kept_of_plain {config : Config} (h : parseArgs args = .ok config)
    (hplain : Unaltered args) : Kept args config := by
  obtain ⟨given, hgiven, -, hfields⟩ := parseArgs_eq_ok h
  have hvalues := hplain (parseArgs_accepted_iff.mp ⟨config, h⟩) given hgiven
  refine ⟨given, hgiven, fun field hfield => ?_⟩
  obtain ⟨hstored, hminimum⟩ := hfields field hfield
  refine ⟨hminimum, ?_⟩
  rw [stored] at hstored
  cases hlast : lastValue given field.flag with
  | none =>
    rw [hlast] at hstored
    exact (Except.ok.inj hstored).symm
  | some value =>
    have hvalue := hvalues field hfield value hlast
    rw [hlast] at hstored
    dsimp only at hstored
    rw [convert_plain (bits_le hfield) hvalue] at hstored
    exact ⟨hvalue, (Except.ok.inj hstored).symm⟩

theorem plain_of_kept {config : Config} (h : Kept args config) : Unaltered args := by
  obtain ⟨given, hgiven, hfields⟩ := h
  intro _ given' hgiven' field hfield value hvalue
  obtain rfl := Option.some.inj (hgiven.symm.trans hgiven')
  have hkept := (hfields field hfield).2
  rw [hvalue] at hkept
  exact hkept.1

/-- Parsing never changes a number exactly if the arguments are rejected or the numbers
in force are plain: the check of the sizes sees them as they are stored. -/
theorem numbers_kept_iff (args : List Bytes) : NumbersKept args ↔ Unaltered args := by
  constructor
  · intro h haccepted
    obtain ⟨config, hconfig⟩ := parseArgs_accepted_iff.mpr haccepted
    exact plain_of_kept (h.1 config hconfig) haccepted
  · intro h
    have hkept : ∀ config, parseArgs args = .ok config → Kept args config :=
      fun config hconfig => kept_of_plain hconfig h
    refine ⟨hkept, fun hnone => ?_⟩
    cases hresult : parseArgs args with
    | error error => exact ⟨error, rfl⟩
    | ok config => exact absurd ⟨config, hkept config hresult⟩ hnone

/-- 2 ^ 32 + 10 repetitions become ten, and ten are enough. -/
theorem repetitions_narrowed :
    ¬ NumbersKept [ascii "--repetitions", ascii "4294967306"] := by
  have haccepted : Accepted [ascii "--repetitions", ascii "4294967306"] :=
    parseArgs_accepted_iff.mp ⟨{}, by rfl⟩
  have hgiven : tokens flags [ascii "--repetitions", ascii "4294967306"] =
      some [(ascii "--repetitions", ascii "4294967306")] := by rfl
  intro h
  obtain ⟨config, hconfig⟩ := parseArgs_accepted_iff.mpr haccepted
  have hplain := plain_of_kept (h.1 config hconfig) haccepted _ hgiven numericFields[1]
    (List.getElem_mem _) (ascii "4294967306") (by rfl)
  exact absurd hplain.2.2 (by decide)

end Kept

end ProtobufKafkaBench.RegistryArguments

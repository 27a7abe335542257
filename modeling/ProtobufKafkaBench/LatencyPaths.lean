import ProtobufKafkaBench.CountedLoops
import ProtobufKafkaBench.Percentiles

/-!
The measured paths of the latency benchmark. One vector holds the samples of a
round; five selections permute it one after the other, then its maximum is taken,
and the next round writes over it. What is reported depends on the samples of
the round alone, in whatever order they came.
-/
namespace ProtobufKafkaBench.LatencyBenchmark

open ByteBuffers CountedLoops Medians NearestRanks Percentiles

section Paths

structure Config where
  iterations : BitVec 64 := 1000000
  repetitions : BitVec 32 := 10
  warmupIterations : BitVec 64 := 10000

/-- The arguments of `run_path`, the clock and the allocation counters. -/
structure Path (World : Type) where
  testCase : Bytes
  path : Bytes
  bytes : BitVec 64
  encode : World → BitVec 64 × World
  now : World → BitVec 64 × World
  resetAllocations : World → World
  allocationCount : World → BitVec 64
  allocatedBytes : World → BitVec 64

structure Tails where
  p50 : ℕ
  p90 : ℕ
  p99 : ℕ
  p99_9 : ℕ
  p99_99 : ℕ
  maximum : ℕ
  deriving DecidableEq

structure Row where
  path : Bytes
  testCase : Bytes
  repetition : BitVec 32
  iterations : BitVec 64
  bytes : BitVec 64
  tails : Tails
  mean : ℚ
  allocations : BitVec 64
  allocatedBytes : BitVec 64
  checksum : BitVec 64

variable {World : Type}

structure Sampling (World : Type) where
  world : World
  samples : List ℕ
  checksum : BitVec 64

structure PathState (World : Type) where
  world : World
  samples : List ℕ
  rows : List Row

/-- `samples[i] = now_ns() - start` around one call. -/
def sampleCall (p : Path World) (i : BitVec 64) (sampling : Sampling World) : Sampling World :=
  let start := p.now sampling.world
  let result := p.encode start.2
  let stop := p.now result.2
  { world := stop.2
    samples := sampling.samples.set i.toNat (stop.1 - start.1).toNat
    checksum := sampling.checksum + result.1 }

/-- The five calls of `percentile` and the maximum, with the vector that they leave. The
selection may permute differently in every call. -/
def tails (select : ℕ → NthElement ℕ) (samples : List ℕ) : Tails × List ℕ :=
  let p50 := Latency.percentile (select 0) samples (50 / 100)
  let p90 := Latency.percentile (select 1) p50.2 (90 / 100)
  let p99 := Latency.percentile (select 2) p90.2 (99 / 100)
  let p99_9 := Latency.percentile (select 3) p99.2 (999 / 1000)
  let p99_99 := Latency.percentile (select 4) p99_9.2 (9999 / 10000)
  let maximum := p99_99.2.foldl max 0
  ({ p50 := p50.1, p90 := p90.1, p99 := p99.1, p99_9 := p99_9.1, p99_99 := p99_99.1, maximum },
    p99_99.2)

def pathRound (select : BitVec 32 → ℕ → NthElement ℕ) (config : Config) (p : Path World)
    (repetition : BitVec 32) (state : PathState World) : PathState World :=
  let sampling := forBelow (sampleCall p) config.iterations 0
    { world := p.resetAllocations state.world, samples := state.samples, checksum := 0 }
  let sum := (sampling.samples.map (BitVec.ofNat 64)).sum
  let reported := tails (select repetition) sampling.samples
  let row : Row := {
    path := p.path
    testCase := p.testCase
    repetition
    iterations := config.iterations
    bytes := p.bytes
    tails := reported.1
    mean := sum.toNat / config.iterations.toNat
    allocations := p.allocationCount sampling.world
    allocatedBytes := p.allocatedBytes sampling.world
    checksum := sampling.checksum }
  { world := sampling.world, samples := reported.2, rows := state.rows ++ [row] }

def initialState (config : Config) (p : Path World) (world : World) (rows : List Row) :
    PathState World where
  world := forBelow (fun _ world => (p.encode world).2) config.warmupIterations 0 world
  samples := List.replicate config.iterations.toNat 0
  rows := rows

/-- `run_path`, with fuel for its rounds. -/
def runPath (select : BitVec 32 → ℕ → NthElement ℕ) (config : Config) (p : Path World)
    (fuel : ℕ) (world : World) (rows : List Row) : Option (PathState World) :=
  forUpTo (pathRound select config p) config.repetitions fuel 1
    (initialState config p world rows)

end Paths

section Tails

variable {samples other : List ℕ}

theorem percentile_perm (select : NthElement ℕ) (values : List ℕ) (fraction : ℚ) :
    (Latency.percentile select values fraction).2.Perm values := select.perm values _

/-- The entry of the sorted samples that `percentile` stands for. -/
def sortedAt (samples : List ℕ) (fraction : ℚ) : ℕ :=
  (sortedValues samples).getD (floorIndex samples.length fraction) 0

def sortedTails (samples : List ℕ) : Tails where
  p50 := sortedAt samples (50 / 100)
  p90 := sortedAt samples (90 / 100)
  p99 := sortedAt samples (99 / 100)
  p99_9 := sortedAt samples (999 / 1000)
  p99_99 := sortedAt samples (9999 / 10000)
  maximum := (sortedValues samples).getLastD 0

theorem floorIndex_lt (hne : samples ≠ []) (fraction : ℚ) :
    floorIndex samples.length fraction < samples.length := by
  have hlength := List.length_pos_iff.mpr hne
  unfold floorIndex
  omega

/-- Whatever the vector has become, `percentile` finds the entry of the sorted samples. -/
theorem percentile_eq_sortedAt (select : NthElement ℕ) (hne : samples ≠ [])
    (hperm : other.Perm samples) (fraction : ℚ) :
    (Latency.percentile select other fraction).1 = sortedAt samples fraction := by
  have hindex := floorIndex_lt hne fraction
  rw [← hperm.length_eq] at hindex
  have hnth := select.nth other _ hindex
  rw [orderStatistic_perm hperm, hperm.length_eq] at hnth
  rw [Latency.percentile, sortedAt]
  simp only [List.getD_eq_getElem?_getD, hperm.length_eq, hnth]
  rfl

theorem foldl_max_perm (h : other.Perm samples) : other.foldl max 0 = samples.foldl max 0 :=
  h.foldl_eq 0

theorem foldl_max_sorted {values : List ℕ} (hsorted : values.Pairwise (· ≤ ·)) (start : ℕ)
    (hstart : ∀ value ∈ values, start ≤ value) :
    values.foldl max start = values.getLastD start := by
  induction values generalizing start with
  | nil => rfl
  | cons first rest ih =>
    obtain ⟨hfirst, hrest⟩ := List.pairwise_cons.mp hsorted
    have hle := hstart first List.mem_cons_self
    rw [List.foldl_cons, max_eq_right hle, ih hrest first hfirst, List.getLastD_cons]

theorem tails_eq (select : ℕ → NthElement ℕ) (hne : samples ≠ []) :
    (tails select samples).1 = sortedTails samples ∧ (tails select samples).2.Perm samples := by
  have h0 := percentile_perm (select 0) samples (50 / 100)
  have h1 := (percentile_perm (select 1) _ (90 / 100)).trans h0
  have h2 := (percentile_perm (select 2) _ (99 / 100)).trans h1
  have h3 := (percentile_perm (select 3) _ (999 / 1000)).trans h2
  have h4 := (percentile_perm (select 4) _ (9999 / 10000)).trans h3
  have hmaximum : samples.foldl max 0 = (sortedValues samples).getLastD 0 := by
    rw [← foldl_max_perm (sortedValues_perm samples)]
    exact foldl_max_sorted (sortedValues_pairwise samples) 0 fun _ _ => Nat.zero_le _
  refine ⟨?_, h4⟩
  unfold tails sortedTails
  rw [← hmaximum, ← foldl_max_perm h4]
  simp only [percentile_eq_sortedAt _ hne (List.Perm.refl samples),
    percentile_eq_sortedAt _ hne h0, percentile_eq_sortedAt _ hne h1,
    percentile_eq_sortedAt _ hne h2, percentile_eq_sortedAt _ hne h3]

theorem sortedTails_perm (h : other.Perm samples) : sortedTails other = sortedTails samples := by
  simp only [sortedTails, sortedAt, sortedValues_eq_of_perm h, h.length_eq]

theorem sortedAt_eq (hne : samples ≠ []) (fraction : ℚ) :
    orderStatistic samples (floorIndex samples.length fraction) =
      some (sortedAt samples fraction) := by
  obtain ⟨value, hvalue⟩ := orderStatistic_isSome (floorIndex_lt hne fraction)
  rw [hvalue, sortedAt, List.getD_eq_getElem?_getD]
  unfold orderStatistic at hvalue
  rw [hvalue]
  rfl

theorem sortedAt_mono (hne : samples ≠ []) {low high : ℚ} (h : low ≤ high) :
    sortedAt samples low ≤ sortedAt samples high := by
  have hproduct : (samples.length : ℚ) * low ≤ samples.length * high :=
    mul_le_mul_of_nonneg_left h (Nat.cast_nonneg _)
  have hindex : floorIndex samples.length low ≤ floorIndex samples.length high :=
    min_le_min_left _ (Nat.floor_mono hproduct)
  exact orderStatistic_mono hindex (sortedAt_eq hne low) (sortedAt_eq hne high)

theorem maximum_eq (hne : samples ≠ []) :
    orderStatistic samples (samples.length - 1) = some (sortedTails samples).maximum := by
  have hsorted : sortedValues samples ≠ [] := by
    rw [← List.length_pos_iff, sortedValues_length]
    exact List.length_pos_iff.mpr hne
  rw [orderStatistic, ← sortedValues_length samples, ← List.getLast?_eq_getElem?, sortedTails,
    List.getLastD_eq_getLast?, List.getLast?_eq_some_getLast hsorted]
  rfl

theorem sortedAt_le_maximum (hne : samples ≠ []) (fraction : ℚ) :
    sortedAt samples fraction ≤ (sortedTails samples).maximum := by
  have hindex : floorIndex samples.length fraction ≤ samples.length - 1 := min_le_left _ _
  exact orderStatistic_mono hindex (sortedAt_eq hne fraction) (maximum_eq hne)

structure Tails.Ordered (tails : Tails) : Prop where
  p50_le : tails.p50 ≤ tails.p90
  p90_le : tails.p90 ≤ tails.p99
  p99_le : tails.p99 ≤ tails.p99_9
  p99_9_le : tails.p99_9 ≤ tails.p99_99
  p99_99_le : tails.p99_99 ≤ tails.maximum

theorem sortedTails_ordered (hne : samples ≠ []) : (sortedTails samples).Ordered where
  p50_le := sortedAt_mono hne (by norm_num)
  p90_le := sortedAt_mono hne (by norm_num)
  p99_le := sortedAt_mono hne (by norm_num)
  p99_9_le := sortedAt_mono hne (by norm_num)
  p99_99_le := sortedAt_le_maximum hne _

end Tails

section Recordings

variable {World : Type}

/-- The time of one call, and the world after it. -/
def timedCall (p : Path World) (world : World) : ℕ × World :=
  let start := p.now world
  let stop := p.now (p.encode start.2).2
  ((stop.1 - start.1).toNat, stop.2)

/-- The times of so many calls in order, and the world after them. -/
def latencies (p : Path World) : ℕ → World → List ℕ × World
  | 0, world => ([], world)
  | count + 1, world =>
    let earlier := latencies p count world
    let call := timedCall p earlier.2
    (earlier.1 ++ [call.1], call.2)

variable {p : Path World}

theorem latencies_length (count : ℕ) (world : World) :
    (latencies p count world).1.length = count := by
  induction count with
  | zero => rfl
  | succ count ih =>
    rw [latencies, List.length_append, ih, List.length_singleton]

theorem sampleCall_samples (i : BitVec 64) (sampling : Sampling World) :
    (sampleCall p i sampling).samples =
      sampling.samples.set i.toNat (timedCall p sampling.world).1 := rfl

/-- After so many calls the vector starts with their times and goes on with what it held. -/
theorem rounds_sampleCall {count : ℕ} {sampling : Sampling World}
    (hcount : count ≤ sampling.samples.length) (hlength : count < 2 ^ 64) :
    (rounds (sampleCall p) count 0 sampling).world = (latencies p count sampling.world).2 ∧
      (rounds (sampleCall p) count 0 sampling).samples =
        (latencies p count sampling.world).1 ++ sampling.samples.drop count := by
  refine rounds_invariant (fun k (t : Sampling World) =>
    t.world = (latencies p k sampling.world).2 ∧
      t.samples = (latencies p k sampling.world).1 ++ sampling.samples.drop k) ⟨rfl, rfl⟩ ?_
  intro k hk t h
  obtain ⟨hworld, hsamples⟩ := h
  have hindex : (0 + BitVec.ofNat 64 k).toNat = k := by
    have hzero : (0 : BitVec 64).toNat = 0 := rfl
    rw [toNat_round (by omega), hzero, Nat.zero_add]
  have hdrop : sampling.samples.drop k =
      sampling.samples[k] :: sampling.samples.drop (k + 1) := by
    exact List.drop_eq_getElem_cons (hk.trans_le hcount)
  constructor
  · rw [latencies, ← hworld]
    rfl
  · have hprefix : (latencies p k sampling.world).1.length = k := latencies_length k _
    rw [sampleCall_samples, hindex, hsamples, hworld, List.set_append_right _ _ (by omega),
      hprefix, Nat.sub_self, hdrop, List.set_cons_zero, latencies, List.append_assoc]
    rfl

/-- A round from one world to another: the times of its calls, and the row with the tails
of the sorted times. -/
structure RecordedRound (config : Config) (p : Path World) (before after : World) (row : Row)
    (recorded : List ℕ) : Prop where
  called : latencies p config.iterations.toNat (p.resetAllocations before) = (recorded, after)
  tails_eq : row.tails = sortedTails recorded

/-- Rounds one after the other, with their rows and the times that were recorded. -/
inductive Records (config : Config) (p : Path World) (start : World) :
    List (Row × List ℕ) → World → Prop
  | nil : Records config p start [] start
  | snoc {records : List (Row × List ℕ)} {before after : World} {row : Row}
      {recorded : List ℕ} :
      Records config p start records before →
      RecordedRound config p before after row recorded →
      Records config p start (records ++ [(row, recorded)]) after

variable {config : Config} {select : BitVec 32 → ℕ → NthElement ℕ} {state : PathState World}

/-- A round overwrites the whole vector, so nothing of an earlier permutation is left. -/
theorem pathRound_spec (hiterations : config.iterations ≠ 0)
    (hlength : state.samples.length = config.iterations.toNat) (repetition : BitVec 32) :
    ∃ row recorded,
      (pathRound select config p repetition state).rows = state.rows ++ [row] ∧
        (pathRound select config p repetition state).samples.Perm recorded ∧
        RecordedRound config p state.world (pathRound select config p repetition state).world
          row recorded := by
  have hcalls := @rounds_sampleCall World p config.iterations.toNat
    { world := p.resetAllocations state.world, samples := state.samples, checksum := 0 }
    hlength.ge config.iterations.isLt
  rw [← forBelow_zero] at hcalls
  obtain ⟨hworld, hsamples⟩ := hcalls
  rw [← hlength, List.drop_length, List.append_nil, hlength] at hsamples
  have hne : (latencies p config.iterations.toNat (p.resetAllocations state.world)).1 ≠ [] := by
    intro hnil
    have hzero := latencies_length (p := p) config.iterations.toNat
      (p.resetAllocations state.world)
    rw [hnil, List.length_nil] at hzero
    exact hiterations (BitVec.eq_of_toNat_eq hzero.symm)
  rw [← hsamples] at hne
  obtain ⟨htails, hperm⟩ := tails_eq (select repetition) hne
  refine ⟨_, (latencies p config.iterations.toNat (p.resetAllocations state.world)).1, rfl, ?_,
    { called := Prod.ext rfl hworld.symm, tails_eq := ?_ }⟩
  · rw [← hsamples]
    exact hperm
  · rw [← hsamples]
    exact htails

/-- The vector keeps its length, so every round of a run is recorded. -/
theorem rounds_records (hiterations : config.iterations ≠ 0) (count : ℕ)
    (hlength : state.samples.length = config.iterations.toNat) :
    ∃ records : List (Row × List ℕ), records.length = count ∧
      (rounds (pathRound select config p) count 1 state).rows =
        state.rows ++ records.map Prod.fst ∧
      Records config p state.world records
        (rounds (pathRound select config p) count 1 state).world := by
  have hinvariant := @rounds_invariant (PathState World) 32 (pathRound select config p)
    (fun k (t : PathState World) => t.samples.length = config.iterations.toNat ∧
      ∃ records : List (Row × List ℕ), records.length = k ∧
        t.rows = state.rows ++ records.map Prod.fst ∧
        Records config p state.world records t.world) count 1 state
    ⟨hlength, [], rfl, (List.append_nil _).symm, Records.nil⟩ ?_
  · exact hinvariant.2
  · intro k _ t h
    obtain ⟨hsamples, records, hcount, hrows, hrecords⟩ := h
    obtain ⟨row, recorded, hrow, hperm, hround⟩ :=
      @pathRound_spec World p config select t hiterations hsamples (1 + BitVec.ofNat 32 k)
    refine ⟨?_, records ++ [(row, recorded)], ?_, ?_, hrecords.snoc hround⟩
    · have hrecorded := latencies_length (p := p) config.iterations.toNat
        (p.resetAllocations t.world)
      rw [hround.called] at hrecorded
      exact hperm.length_eq.trans hrecorded
    · rw [List.length_append, hcount, List.length_singleton]
    · rw [hrow, hrows, List.map_append, List.append_assoc]
      rfl

/-- A run of the path returns unless the number of repetitions is the largest counter, and
then after a round for each repetition. -/
theorem runPath_returns_iff {world : World} {rows : List Row} {final : PathState World} :
    (∃ fuel, runPath select config p fuel world rows = some final) ↔
      config.repetitions ≠ BitVec.allOnes 32 ∧
        final = rounds (pathRound select config p) config.repetitions.toNat 1
          (initialState config p world rows) :=
  forUpTo_ends_iff (Nat.le_add_left 1 _)

/-- What `run_path` reports of a vector of samples are the tails of the sorted samples, in
order and whatever the selections do. It goes through one round for each repetition, and each
row reports the times recorded in its own round. -/
theorem tails_independent_of_order (p : Path World) (config : Config)
    (hiterations : config.iterations ≠ 0) (select : BitVec 32 → ℕ → NthElement ℕ) :
    (∀ (choice : ℕ → NthElement ℕ) (samples : List ℕ), samples ≠ [] →
      (tails choice samples).1 = sortedTails samples ∧
        (tails choice samples).2.Perm samples ∧
        (∀ (call : NthElement ℕ) (fraction : ℚ),
          (Latency.percentile call samples fraction).2.Perm samples) ∧
        (∀ (choice' : ℕ → NthElement ℕ) (other : List ℕ), other.Perm samples →
          (tails choice' other).1 = (tails choice samples).1) ∧
        (tails choice samples).1.Ordered) ∧
    ∀ (world : World) (rows : List Row),
      (∀ count, ∃ records : List (Row × List ℕ), records.length = count ∧
        (rounds (pathRound select config p) count 1
          (initialState config p world rows)).rows = rows ++ records.map Prod.fst ∧
        Records config p (initialState config p world rows).world records
          (rounds (pathRound select config p) count 1
            (initialState config p world rows)).world) ∧
      ∀ final, (∃ fuel, runPath select config p fuel world rows = some final) ↔
        config.repetitions ≠ BitVec.allOnes 32 ∧
          final = rounds (pathRound select config p) config.repetitions.toNat 1
            (initialState config p world rows) := by
  constructor
  · intro choice samples hne
    obtain ⟨htails, hperm⟩ := tails_eq choice hne
    refine ⟨htails, hperm, fun call fraction => percentile_perm call samples fraction, ?_, ?_⟩
    · intro choice' other hother
      have hother' : other ≠ [] := by
        rw [← List.length_pos_iff, hother.length_eq]
        exact List.length_pos_iff.mpr hne
      rw [(tails_eq choice' hother').1, htails, sortedTails_perm hother]
    · rw [htails]
      exact sortedTails_ordered hne
  · intro world rows
    constructor
    · intro count
      exact rounds_records hiterations count List.length_replicate
    · intro final
      exact runPath_returns_iff

theorem records_nil {start after : World} (h : Records config p start [] after) :
    after = start := by
  generalize hall : [] = all at h
  cases h with
  | nil => rfl
  | snoc hearlier hround => simp at hall

theorem records_snoc_iff {start after : World} {records : List (Row × List ℕ)} {row : Row}
    {recorded : List ℕ} :
    Records config p start (records ++ [(row, recorded)]) after ↔
      ∃ before, Records config p start records before ∧
        RecordedRound config p before after row recorded := by
  constructor
  · intro h
    generalize hall : records ++ [(row, recorded)] = all at h
    cases h with
    | nil => simp at hall
    | snoc hearlier hround =>
      obtain ⟨rfl, hlast⟩ := List.append_inj' hall rfl
      obtain ⟨rfl, rfl⟩ := Prod.mk.inj (List.singleton_inj.mp hlast)
      exact ⟨_, hearlier, hround⟩
  · intro h
    obtain ⟨before, hearlier, hround⟩ := h
    exact hearlier.snoc hround

/-- A path whose calls take 30, 10 and 20 by turns, and a clock that goes on by one when it
is read. -/
def unevenPath : Path (BitVec 64 × BitVec 64) where
  testCase := ascii "one_string_ten_int64"
  path := ascii "serialize_array_reuse"
  bytes := 41
  encode world := (41, world.1 + (if world.2 = 0 then 29 else if world.2 = 1 then 9 else 19),
    if world.2 = 2 then 0 else world.2 + 1)
  now world := (world.1, world.1 + 1, world.2)
  resetAllocations world := world
  allocationCount _ := 0
  allocatedBytes _ := 0

/-- Two repetitions of four calls each, with the times out of order. -/
theorem tails_independent_of_order_two_rounds :
    ∃ (fuel : ℕ) (final : PathState (BitVec 64 × BitVec 64)),
      runPath (fun _ _ => .bySorting) { iterations := 4, repetitions := 2, warmupIterations := 0 }
        unevenPath fuel (100, 0) [] = some final ∧
      final.rows.map Row.tails = [sortedTails [30, 10, 20, 30], sortedTails [10, 20, 30, 10]] := by
  obtain ⟨-, hruns⟩ := tails_independent_of_order unevenPath
    { iterations := 4, repetitions := 2, warmupIterations := 0 } (by decide)
    (fun _ _ => .bySorting)
  obtain ⟨hrecords, hreturns⟩ := hruns (100, 0) []
  obtain ⟨records, hlength, hrows, hchain⟩ := hrecords 2
  obtain ⟨fuel, hfuel⟩ := (hreturns _).mpr ⟨by decide, rfl⟩
  have hstart : (initialState { iterations := 4, repetitions := 2, warmupIterations := 0 }
      unevenPath (100, 0) []).world = (100, 0) := by
    rw [initialState, forBelow_zero]
    rfl
  rw [hstart] at hchain
  obtain ⟨first, second, rfl⟩ := List.length_eq_two.mp hlength
  obtain ⟨middle, hfirst, hround'⟩ := (@records_snoc_iff _ _ _ _ _ [first] _ _).mp hchain
  obtain ⟨start, hnone, hround⟩ := (@records_snoc_iff _ _ _ _ _ [] _ _).mp hfirst
  obtain rfl := records_nil hnone
  obtain ⟨hfirst, hmiddle⟩ := Prod.mk.inj (hround.called.symm.trans
    (show latencies unevenPath 4 (100, 0) = ([30, 10, 20, 30], 194, 1) by decide))
  rw [hmiddle] at hround'
  have hsecond := (Prod.mk.inj (hround'.called.symm.trans
    (show latencies unevenPath 4 (194, 1) = ([10, 20, 30, 10], 268, 2) by decide))).1
  refine ⟨fuel, _, hfuel, (congrArg (List.map Row.tails) hrows).trans ?_⟩
  simp only [List.nil_append, List.map_cons, List.map_nil, hround.tails_eq, hround'.tails_eq,
    hfirst, hsecond]

end Recordings

end ProtobufKafkaBench.LatencyBenchmark

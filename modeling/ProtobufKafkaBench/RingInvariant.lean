import ProtobufKafkaBench.SpscPointerRing

/-!
The invariant of the pointer ring. It relates the wrapped counters, the
versions each thread last loaded, the slot contents and the locals of an
unfinished call to a queue of values and the number of values already taken
out of it. Every step of either party keeps it, under both readings of a load.
-/
namespace ProtobufKafkaBench.SpscPointerRing

open AtomicCells

variable {capacity : RingCapacity} {α : Type*}

/-- An entry of a list with one more element is an old one or the new one. -/
theorem getElem?_snoc_eq_some {values : List α} {last value : α} {j : ℕ}
    (h : (values ++ [last])[j]? = some value) :
    values[j]? = some value ∨ j = values.length ∧ last = value := by
  rcases Nat.lt_or_ge j values.length with hlt | hge
  · rw [List.getElem?_append_left hlt] at h
    exact Or.inl h
  · rw [List.getElem?_append_right hge, List.getElem?_singleton] at h
    split at h
    · rename_i hzero
      exact Or.inr ⟨by omega, Option.some.inj h⟩
    · simp at h

/-- What an unfinished `try_push` knows; `count` is the number of values pushed. -/
def TryPush.Holds (push : TryPush α) (entries : Fin capacity.size → Option α)
    (seenTail count : ℕ) : Prop :=
  match push with
  | .idle => True
  | .loadedHead _ head => head = BitVec.ofNat 64 count
  | .hasRoom _ head => head = BitVec.ofNat 64 count ∧ count < seenTail + capacity.size
  | .wroteEntry value head => head = BitVec.ofNat 64 count ∧
      count < seenTail + capacity.size ∧ entries (capacity.slot head) = some value

/-- What an unfinished `pop` knows; `taken` is the number of values popped. -/
def Pop.Holds (pop : Pop α) (seenHead taken : ℕ) (queue : List α) : Prop :=
  match pop with
  | .idle => True
  | .loadedTail tail => tail = BitVec.ofNat 64 taken
  | .hasValue tail => tail = BitVec.ofNat 64 taken ∧ taken < seenHead
  | .readEntry value tail =>
      tail = BitVec.ofNat 64 taken ∧ taken < seenHead ∧ value = queue.head?

/-- The ring holds `queue`, after `taken` values have been taken out of it. -/
structure Represents (ring : Ring capacity α) (taken : ℕ) (queue : List α) : Prop where
  head_counts : Counts ring.head (taken + queue.length)
  tail_counts : Counts ring.tail taken
  seenTail_le : ring.seenTail ≤ taken
  taken_le : taken ≤ ring.seenHead
  seenHead_le : ring.seenHead ≤ taken + queue.length
  room : taken + queue.length ≤ ring.seenTail + capacity.size
  contents : ∀ j value, queue[j]? = some value →
    ring.entries (capacity.slot (BitVec.ofNat 64 (taken + j))) = some value
  push : ring.push.Holds ring.entries ring.seenTail (taken + queue.length)
  pop : ring.pop.Holds ring.seenHead taken queue

theorem represents_initial (capacity : RingCapacity) (α : Type*) :
    Represents (Ring.initial capacity α) 0 [] where
  head_counts := counts_init
  tail_counts := counts_init
  seenTail_le := Nat.le_refl 0
  taken_le := Nat.le_refl 0
  seenHead_le := Nat.le_refl 0
  room := Nat.zero_le _
  contents j value h := by simp at h
  push := trivial
  pop := trivial

namespace Represents

variable {ring : Ring capacity α} {taken : ℕ} {queue : List α}

theorem queue_length_le (h : Represents ring taken queue) : queue.length ≤ capacity.size := by
  have h1 := h.room
  have h2 := h.seenTail_le
  omega

/-- A load of `tail_` returns a version between the last one seen and the newest. -/
theorem read_tail {visibility : Visibility} {version : ℕ} {tail : SizeT}
    (h : Represents ring taken queue)
    (hread : visibility.Reads ring.seenTail ring.tail version tail) :
    ring.seenTail ≤ version ∧ version ≤ taken ∧ tail = BitVec.ofNat 64 version := by
  have hversion := h.tail_counts.version
  obtain ⟨h1, h2, h3⟩ := hread.bounds (by rw [hversion]; exact h.seenTail_le)
  rw [hversion] at h2
  exact ⟨h1, h2, h.tail_counts.getElem h3⟩

theorem read_head {visibility : Visibility} {version : ℕ} {head : SizeT}
    (h : Represents ring taken queue)
    (hread : visibility.Reads ring.seenHead ring.head version head) :
    ring.seenHead ≤ version ∧ version ≤ taken + queue.length ∧
      head = BitVec.ofNat 64 version := by
  have hversion := h.head_counts.version
  obtain ⟨h1, h2, h3⟩ := hread.bounds (by rw [hversion]; exact h.seenHead_le)
  rw [hversion] at h2
  exact ⟨h1, h2, h.head_counts.getElem h3⟩

/-- The wrapped comparison with `Capacity` is exact on the versions it compares. -/
theorem full_iff (h : Represents ring taken queue) {version : ℕ}
    (h1 : ring.seenTail ≤ version) (h2 : version ≤ taken) :
    BitVec.ofNat 64 (taken + queue.length) - BitVec.ofNat 64 version = capacity.word ↔
      taken + queue.length - version = capacity.size := by
  have hroom := h.room
  have hlt := capacity.size_lt
  exact ofNat_sub_eq_iff (by omega) (by omega) hlt

/-- The wrapped comparison of the two counters is exact as well. -/
theorem empty_iff (h : Represents ring taken queue) {version : ℕ}
    (h1 : ring.seenHead ≤ version) (h2 : version ≤ taken + queue.length) :
    BitVec.ofNat 64 taken = BitVec.ofNat 64 version ↔ taken = version := by
  have hlength := h.queue_length_le
  have htaken := h.taken_le
  have hlt := capacity.size_lt
  exact ofNat_eq_iff (by omega) (by omega)

/-- Writing the next slot leaves every queued value in its own slot. -/
theorem contents_writeEntry (h : Represents ring taken queue) (value : α)
    (hroom : taken + queue.length < ring.seenTail + capacity.size) :
    ∀ j v, queue[j]? = some v →
      (ring.writeEntry (BitVec.ofNat 64 (taken + queue.length)) value).entries
        (capacity.slot (BitVec.ofNat 64 (taken + j))) = some v := by
  intro j v hj
  have hlt := (List.getElem?_eq_some_iff.mp hj).1
  have hseen := h.seenTail_le
  have hne : capacity.slot (BitVec.ofNat 64 (taken + j)) ≠
      capacity.slot (BitVec.ofNat 64 (taken + queue.length)) := by
    intro heq
    have := capacity.slot_ofNat_inj (by omega) (by omega) heq
    omega
  simp only [Ring.writeEntry, Function.update_of_ne hne]
  exact h.contents j v hj

/-- A found value is the oldest queued one. -/
theorem readEntry_eq_head (h : Represents ring taken queue) (hfound : taken < ring.seenHead) :
    ring.readEntry (BitVec.ofNat 64 taken) = queue.head? := by
  have hle := h.seenHead_le
  cases queue with
  | nil =>
    simp only [List.length_nil] at hle
    omega
  | cons value rest => simpa [Ring.readEntry] using h.contents 0 value rfl

end Represents

/-- The effect of a step on the queue and on the number of values taken out. -/
def Event.effect (event : Event capacity α) (taken : ℕ) (queue : List α) : ℕ × List α :=
  match event with
  | .pushStore value => (taken, queue ++ [value])
  | .popStore _ => (taken + 1, queue.tail)
  | _ => (taken, queue)

section Preservation

variable {visibility : Visibility} {ring : Ring capacity α} {taken : ℕ} {queue : List α}

theorem represents_pushLoadHead (h : Represents ring taken queue) (value : α) :
    Represents { ring with push := .loadedHead value ring.head.current } taken queue :=
  { h with push := h.head_counts.current }

theorem represents_pushFull (h : Represents ring taken queue) {version : ℕ} {tail : SizeT}
    (hread : visibility.Reads ring.seenTail ring.tail version tail) :
    Represents { ring with push := .idle, seenTail := version } taken queue := by
  obtain ⟨h1, h2, -⟩ := h.read_tail hread
  have hroom := h.room
  exact { h with seenTail_le := h2, room := by simp only; omega, push := trivial }

theorem represents_pushRoom (h : Represents ring taken queue) {value : α} {head tail : SizeT}
    {version : ℕ} (hpc : ring.push = .loadedHead value head)
    (hread : visibility.Reads ring.seenTail ring.tail version tail)
    (hroom : head - tail ≠ capacity.word) :
    Represents { ring with push := .hasRoom value head, seenTail := version } taken queue := by
  obtain ⟨h1, h2, rfl⟩ := h.read_tail hread
  have hpush := h.push
  rw [hpc] at hpush
  have hhead : head = BitVec.ofNat 64 (taken + queue.length) := hpush
  subst hhead
  have hne := mt (h.full_iff h1 h2).mpr hroom
  have hle := h.room
  have hlt : taken + queue.length < version + capacity.size := by omega
  exact { h with seenTail_le := h2, room := hlt.le, push := ⟨rfl, hlt⟩ }

theorem represents_pushWrite (h : Represents ring taken queue) {value : α} {head : SizeT}
    (hpc : ring.push = .hasRoom value head) :
    Represents { ring.writeEntry head value with push := .wroteEntry value head }
      taken queue := by
  have hpush := h.push
  rw [hpc] at hpush
  obtain ⟨rfl, hroom⟩ := hpush
  exact { h with
    contents := h.contents_writeEntry value hroom
    push := ⟨rfl, hroom, by simp [Ring.writeEntry]⟩ }

theorem represents_pushStore (h : Represents ring taken queue) {value : α} {head : SizeT}
    (hpc : ring.push = .wroteEntry value head) :
    Represents { ring with head := ring.head.store (head + 1), push := .idle }
      taken (queue ++ [value]) := by
  have hpush := h.push
  rw [hpc] at hpush
  obtain ⟨rfl, hroom, hentry⟩ := hpush
  have hlength : (queue ++ [value]).length = queue.length + 1 := by simp
  refine { h with
    head_counts := ?_
    seenHead_le := ?_
    room := ?_
    contents := ?_
    push := trivial
    pop := ?_ }
  · rw [hlength]
    exact h.head_counts.store rfl
  · have := h.seenHead_le
    simp only [hlength]
    omega
  · simp only [hlength]
    omega
  · intro j v hj
    rcases getElem?_snoc_eq_some hj with hold | ⟨rfl, rfl⟩
    · exact h.contents j v hold
    · exact hentry
  · -- a value already read is the oldest one, so it stays the oldest
    have hpop := h.pop
    have hle := h.seenHead_le
    cases hring : ring.pop with
    | idle => trivial
    | loadedTail tail => simpa [hring, Pop.Holds] using hpop
    | hasValue tail => simpa [hring, Pop.Holds] using hpop
    | readEntry v tail =>
      rw [hring] at hpop
      obtain ⟨htail, hfound, hv⟩ := hpop
      refine ⟨htail, hfound, ?_⟩
      cases queue with
      | nil =>
        simp only [List.length_nil] at hle
        omega
      | cons first rest => simpa using hv

theorem represents_popLoadTail (h : Represents ring taken queue) :
    Represents { ring with pop := .loadedTail ring.tail.current } taken queue :=
  { h with pop := h.tail_counts.current }

theorem represents_popEmpty (h : Represents ring taken queue) {version : ℕ} {head : SizeT}
    (hread : visibility.Reads ring.seenHead ring.head version head) :
    Represents { ring with pop := .idle, seenHead := version } taken queue := by
  obtain ⟨h1, h2, -⟩ := h.read_head hread
  exact { h with taken_le := h.taken_le.trans h1, seenHead_le := h2, pop := trivial }

theorem represents_popFound (h : Represents ring taken queue) {tail head : SizeT}
    {version : ℕ} (hpc : ring.pop = .loadedTail tail)
    (hread : visibility.Reads ring.seenHead ring.head version head) (hfound : tail ≠ head) :
    Represents { ring with pop := .hasValue tail, seenHead := version } taken queue := by
  obtain ⟨h1, h2, rfl⟩ := h.read_head hread
  have hpop := h.pop
  rw [hpc] at hpop
  have htail : tail = BitVec.ofNat 64 taken := hpop
  subst htail
  have hne := mt (h.empty_iff h1 h2).mpr hfound
  have hlt : taken < version := lt_of_le_of_ne (h.taken_le.trans h1) hne
  exact { h with taken_le := hlt.le, seenHead_le := h2, pop := ⟨rfl, hlt⟩ }

theorem represents_popRead (h : Represents ring taken queue) {tail : SizeT}
    (hpc : ring.pop = .hasValue tail) :
    Represents { ring with pop := .readEntry (ring.readEntry tail) tail } taken queue := by
  have hpop := h.pop
  rw [hpc] at hpop
  obtain ⟨rfl, hfound⟩ := hpop
  exact { h with pop := ⟨rfl, hfound, h.readEntry_eq_head hfound⟩ }

/-- The value a `pop` returns is the oldest queued one. -/
theorem Represents.pop_value (h : Represents ring taken queue) {value : Option α}
    {tail : SizeT} (hpc : ring.pop = .readEntry value tail) :
    ∃ first rest, queue = first :: rest ∧ value = some first := by
  have hpop := h.pop
  rw [hpc] at hpop
  obtain ⟨-, hfound, hvalue⟩ := hpop
  have hle := h.seenHead_le
  cases queue with
  | nil =>
    simp only [List.length_nil] at hle
    omega
  | cons first rest => exact ⟨first, rest, rfl, hvalue⟩

theorem represents_popStore (h : Represents ring taken queue) {value : Option α}
    {tail : SizeT} (hpc : ring.pop = .readEntry value tail) :
    Represents { ring with tail := ring.tail.store (tail + 1), pop := .idle }
      (taken + 1) queue.tail := by
  obtain ⟨first, rest, rfl, -⟩ := h.pop_value hpc
  have hpop := h.pop
  rw [hpc] at hpop
  obtain ⟨rfl, hfound, -⟩ := hpop
  have hlength : taken + 1 + rest.length = taken + (first :: rest).length := by
    simp only [List.length_cons]
    omega
  have hseen := h.seenTail_le
  refine { h with
    head_counts := ?_
    tail_counts := h.tail_counts.store rfl
    seenTail_le := by simp only; omega
    taken_le := hfound
    seenHead_le := ?_
    room := ?_
    contents := ?_
    push := ?_
    pop := trivial }
  · simpa only [List.tail_cons, hlength] using h.head_counts
  · simpa only [List.tail_cons, hlength] using h.seenHead_le
  · simpa only [List.tail_cons, hlength] using h.room
  · intro j v hj
    have := h.contents (j + 1) v (by simpa using hj)
    rwa [show taken + (j + 1) = taken + 1 + j by omega] at this
  · simpa only [List.tail_cons, hlength] using h.push

/-- Every step of either party keeps the invariant, with its effect on the queue. -/
theorem represents_step {ring' : Ring capacity α} {event : Event capacity α}
    (h : Represents ring taken queue) (hstep : Step visibility ring event ring') :
    Represents ring' (event.effect taken queue).1 (event.effect taken queue).2 := by
  cases hstep with
  | pushLoadHead value hpc => exact represents_pushLoadHead h value
  | pushFull value head tail version hpc hread hfull => exact represents_pushFull h hread
  | pushRoom value head tail version hpc hread hroom =>
    exact represents_pushRoom h hpc hread hroom
  | pushWrite value head hpc => exact represents_pushWrite h hpc
  | pushStore value head hpc => exact represents_pushStore h hpc
  | popLoadTail hpc => exact represents_popLoadTail h
  | popEmpty tail head version hpc hread hempty => exact represents_popEmpty h hread
  | popFound tail head version hpc hread hfound => exact represents_popFound h hpc hread hfound
  | popRead tail hpc => exact represents_popRead h hpc
  | popStore value tail hpc => exact represents_popStore h hpc

end Preservation

end ProtobufKafkaBench.SpscPointerRing

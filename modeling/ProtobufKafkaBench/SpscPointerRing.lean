import ProtobufKafkaBench.Transitions
import ProtobufKafkaBench.AtomicCells
import Mathlib.Logic.Function.Basic

/-!
The single-producer single-consumer pointer ring of the asynchronous pipeline.
One producer runs `try_push` and one consumer runs `pop`; each load or store of
`head_` and `tail_` and each access to `entries_` is one step, and a schedule
interleaves the steps of the two calls. Tests on already loaded values belong
to the step that loaded the last of them.
-/
namespace ProtobufKafkaBench.SpscPointerRing

open Transitions AtomicCells

abbrev SizeT := BitVec 64

/-- A `Capacity` argument: a power of two that a 64-bit difference can reach. -/
structure RingCapacity where
  log2 : ℕ
  log2_le : log2 ≤ 63

namespace RingCapacity

def size (capacity : RingCapacity) : ℕ := 2 ^ capacity.log2

def word (capacity : RingCapacity) : SizeT := BitVec.ofNat 64 capacity.size

theorem size_pos (capacity : RingCapacity) : 0 < capacity.size := Nat.two_pow_pos _

theorem size_lt (capacity : RingCapacity) : capacity.size < 2 ^ 64 :=
  Nat.pow_lt_pow_right (by omega) (Nat.lt_succ_of_le capacity.log2_le)

theorem toNat_and_mask (capacity : RingCapacity) (n : ℕ) :
    (BitVec.ofNat 64 n &&& (capacity.word - 1)).toNat = n % capacity.size :=
  AtomicCells.toNat_and_mask n capacity.log2 (Nat.lt_succ_of_le capacity.log2_le)

/-- `counter & (Capacity - 1)`, which is always a valid index of `entries_`. -/
def slot (capacity : RingCapacity) (counter : SizeT) : Fin capacity.size :=
  ⟨(counter &&& (capacity.word - 1)).toNat, by
    have h := toNat_and_mask capacity counter.toNat
    rw [BitVec.ofNat_toNat, BitVec.setWidth_eq] at h
    rw [h]
    exact Nat.mod_lt _ capacity.size_pos⟩

theorem slot_ofNat (capacity : RingCapacity) (n : ℕ) :
    (capacity.slot (BitVec.ofNat 64 n)).val = n % capacity.size :=
  toNat_and_mask capacity n

theorem slot_ofNat_inj (capacity : RingCapacity) {m n : ℕ} (hmn : m ≤ n)
    (hwindow : n - m < capacity.size)
    (h : capacity.slot (BitVec.ofNat 64 m) = capacity.slot (BitVec.ofNat 64 n)) : m = n := by
  apply eq_of_mod_eq hmn hwindow
  rw [← slot_ofNat, ← slot_ofNat, h]

end RingCapacity

/-- Where the producer stands inside `try_push`, with the locals it still needs. -/
inductive TryPush (α : Type*)
  | idle
  | loadedHead (value : α) (head : SizeT)
  | hasRoom (value : α) (head : SizeT)
  | wroteEntry (value : α) (head : SizeT)

/-- Where the consumer stands inside `pop`; a slot that was never written is null. -/
inductive Pop (α : Type*)
  | idle
  | loadedTail (tail : SizeT)
  | hasValue (tail : SizeT)
  | readEntry (value : Option α) (tail : SizeT)

/-- The shared ring with both parties' call state. `seenTail` and `seenHead` are
the versions of the other party's counter that each thread has last loaded. -/
structure Ring (capacity : RingCapacity) (α : Type*) where
  entries : Fin capacity.size → Option α
  head : AtomicCell SizeT
  tail : AtomicCell SizeT
  push : TryPush α
  seenTail : ℕ
  pop : Pop α
  seenHead : ℕ

variable {capacity : RingCapacity} {α : Type*}

namespace Ring

def initial (capacity : RingCapacity) (α : Type*) : Ring capacity α where
  entries _ := none
  head := AtomicCell.init 0
  tail := AtomicCell.init 0
  push := .idle
  seenTail := 0
  pop := .idle
  seenHead := 0

def writeEntry (ring : Ring capacity α) (head : SizeT) (value : α) : Ring capacity α :=
  { ring with entries := Function.update ring.entries (capacity.slot head) (some value) }

def readEntry (ring : Ring capacity α) (tail : SizeT) : Option α :=
  ring.entries (capacity.slot tail)

end Ring

/-- One step of either party. Stores that end a call carry what the call returns:
`pushStore` is a `try_push` returning true and `pushFull` one returning false,
`popStore` is a `pop` returning its value and `popEmpty` one returning null. -/
inductive Event (capacity : RingCapacity) (α : Type*)
  | pushLoadHead (value : α)
  | pushFull (value : α)
  | pushRoom
  | pushWrite (slot : Fin capacity.size) (value : α)
  | pushStore (value : α)
  | popLoadTail
  | popEmpty
  | popFound
  | popRead (slot : Fin capacity.size) (value : Option α)
  | popStore (value : Option α)

/-- The steps of `try_push` and `pop`. Each thread is the only writer of its own
counter, so its relaxed load of that counter returns the newest value. -/
inductive Step (visibility : Visibility) :
    Ring capacity α → Event capacity α → Ring capacity α → Prop
  | pushLoadHead (ring : Ring capacity α) (value : α) (hpc : ring.push = .idle) :
      Step visibility ring (.pushLoadHead value)
        { ring with push := .loadedHead value ring.head.current }
  | pushFull (ring : Ring capacity α) (value : α) (head tail : SizeT) (version : ℕ)
      (hpc : ring.push = .loadedHead value head)
      (hread : visibility.Reads ring.seenTail ring.tail version tail)
      (hfull : head - tail = capacity.word) :
      Step visibility ring (.pushFull value) { ring with push := .idle, seenTail := version }
  | pushRoom (ring : Ring capacity α) (value : α) (head tail : SizeT) (version : ℕ)
      (hpc : ring.push = .loadedHead value head)
      (hread : visibility.Reads ring.seenTail ring.tail version tail)
      (hroom : head - tail ≠ capacity.word) :
      Step visibility ring .pushRoom
        { ring with push := .hasRoom value head, seenTail := version }
  | pushWrite (ring : Ring capacity α) (value : α) (head : SizeT)
      (hpc : ring.push = .hasRoom value head) :
      Step visibility ring (.pushWrite (capacity.slot head) value)
        { ring.writeEntry head value with push := .wroteEntry value head }
  | pushStore (ring : Ring capacity α) (value : α) (head : SizeT)
      (hpc : ring.push = .wroteEntry value head) :
      Step visibility ring (.pushStore value)
        { ring with head := ring.head.store (head + 1), push := .idle }
  | popLoadTail (ring : Ring capacity α) (hpc : ring.pop = .idle) :
      Step visibility ring .popLoadTail { ring with pop := .loadedTail ring.tail.current }
  | popEmpty (ring : Ring capacity α) (tail head : SizeT) (version : ℕ)
      (hpc : ring.pop = .loadedTail tail)
      (hread : visibility.Reads ring.seenHead ring.head version head)
      (hempty : tail = head) :
      Step visibility ring .popEmpty { ring with pop := .idle, seenHead := version }
  | popFound (ring : Ring capacity α) (tail head : SizeT) (version : ℕ)
      (hpc : ring.pop = .loadedTail tail)
      (hread : visibility.Reads ring.seenHead ring.head version head)
      (hfound : tail ≠ head) :
      Step visibility ring .popFound { ring with pop := .hasValue tail, seenHead := version }
  | popRead (ring : Ring capacity α) (tail : SizeT) (hpc : ring.pop = .hasValue tail) :
      Step visibility ring (.popRead (capacity.slot tail) (ring.readEntry tail))
        { ring with pop := .readEntry (ring.readEntry tail) tail }
  | popStore (ring : Ring capacity α) (value : Option α) (tail : SizeT)
      (hpc : ring.pop = .readEntry value tail) :
      Step visibility ring (.popStore value)
        { ring with tail := ring.tail.store (tail + 1), pop := .idle }

/-- The values whose `try_push` returned true, in order. -/
def pushed (events : List (Event capacity α)) : List α :=
  events.filterMap fun event => match event with
    | .pushStore value => some value
    | _ => none

/-- The values that `pop` read from a slot and returned, in order. -/
def popped (events : List (Event capacity α)) : List (Option α) :=
  events.filterMap fun event => match event with
    | .popStore value => some value
    | _ => none

inductive SlotAccess (α : Type*)
  | write (value : α)
  | read (value : Option α)

/-- The accesses to one slot of `entries_`, in order. -/
def slotAccesses (slot : Fin capacity.size) (events : List (Event capacity α)) :
    List (SlotAccess α) :=
  events.filterMap fun event => match event with
    | .pushWrite i value => if i = slot then some (.write value) else none
    | .popRead i value => if i = slot then some (.read value) else none
    | _ => none

/-- A slot history in which writes and reads alternate, starting with a write,
each read returning what the write before it stored; the second argument is
the value written and not yet read. -/
inductive Alternates : List (SlotAccess α) → Option α → Prop
  | fresh : Alternates [] none
  | write {accesses : List (SlotAccess α)} (value : α) :
      Alternates accesses none → Alternates (accesses ++ [.write value]) (some value)
  | read {accesses : List (SlotAccess α)} (value : α) :
      Alternates accesses (some value) → Alternates (accesses ++ [.read (some value)]) none

end ProtobufKafkaBench.SpscPointerRing

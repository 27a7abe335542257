import Mathlib.Data.List.Range
import Mathlib.Data.Nat.ModEq
import Mathlib.Tactic.Ring

/-!
Atomic objects with their modification order, and the two readings of a load
that a schedule may use: plain interleaving, where a load returns the newest
value, and acquire-release, where it may return an older one as long as it does
not go back behind a value the same thread has already seen. A counter that a
single thread increments holds 0, 1, 2, ... modulo a power of two in that order.
-/
namespace ProtobufKafkaBench.AtomicCells

variable {β : Type*}

/-- `past` holds the values before the current one, oldest first. -/
structure AtomicCell (β : Type*) where
  past : List β
  current : β

namespace AtomicCell

def init (value : β) : AtomicCell β := ⟨[], value⟩

def store (cell : AtomicCell β) (value : β) : AtomicCell β :=
  ⟨cell.past ++ [cell.current], value⟩

def order (cell : AtomicCell β) : List β := cell.past ++ [cell.current]

/-- The index of the current value in the modification order. -/
def version (cell : AtomicCell β) : ℕ := cell.past.length

@[simp] theorem version_init (value : β) : (init value).version = 0 := rfl

@[simp] theorem current_init (value : β) : (init value).current = value := rfl

@[simp] theorem version_store (cell : AtomicCell β) (value : β) :
    (cell.store value).version = cell.version + 1 := by
  simp [version, store]

@[simp] theorem current_store (cell : AtomicCell β) (value : β) :
    (cell.store value).current = value := rfl

theorem order_store (cell : AtomicCell β) (value : β) :
    (cell.store value).order = cell.order ++ [value] := rfl

theorem order_length (cell : AtomicCell β) : cell.order.length = cell.version + 1 := by
  simp [order, version]

theorem order_version (cell : AtomicCell β) : cell.order[cell.version]? = some cell.current := by
  simp [order, version]

end AtomicCell

open AtomicCell

inductive Visibility
  | interleaving
  | acquireRelease

/-- A load by a thread that last saw version `seen` may return version `k`. -/
def Visibility.Reads (visibility : Visibility) (seen : ℕ) (cell : AtomicCell β)
    (k : ℕ) (value : β) : Prop :=
  match visibility with
  | .interleaving => k = cell.version ∧ value = cell.current
  | .acquireRelease => seen ≤ k ∧ cell.order[k]? = some value

/-- Whichever reading is used, a load stays between what was seen and what is current. -/
theorem Visibility.Reads.bounds {visibility : Visibility} {seen k : ℕ} {cell : AtomicCell β}
    {value : β} (hread : visibility.Reads seen cell k value) (hseen : seen ≤ cell.version) :
    seen ≤ k ∧ k ≤ cell.version ∧ cell.order[k]? = some value := by
  cases visibility with
  | interleaving =>
    obtain ⟨rfl, rfl⟩ := hread
    exact ⟨hseen, Nat.le_refl _, cell.order_version⟩
  | acquireRelease =>
    obtain ⟨hk, hvalue⟩ := hread
    have hlt := (List.getElem?_eq_some_iff.mp hvalue).1
    rw [order_length] at hlt
    exact ⟨hk, by omega, hvalue⟩

theorem Visibility.reads_current (visibility : Visibility) {seen : ℕ} {cell : AtomicCell β}
    (hseen : seen ≤ cell.version) :
    visibility.Reads seen cell cell.version cell.current := by
  cases visibility with
  | interleaving => exact ⟨rfl, rfl⟩
  | acquireRelease => exact ⟨hseen, cell.order_version⟩

section Counter

variable {w : ℕ}

/-- The cell has held 0, 1, ..., n, each modulo 2 to the word size, and nothing else. -/
def Counts (cell : AtomicCell (BitVec w)) (n : ℕ) : Prop :=
  cell.order = (List.range (n + 1)).map (BitVec.ofNat w)

theorem counts_init : Counts (init (0 : BitVec w)) 0 := by
  simp [Counts, order, init]

theorem Counts.version {cell : AtomicCell (BitVec w)} {n : ℕ} (h : Counts cell n) :
    cell.version = n := by
  have hlength := congrArg List.length h
  rw [order_length, List.length_map, List.length_range] at hlength
  omega

theorem Counts.getElem {cell : AtomicCell (BitVec w)} {n k : ℕ} {value : BitVec w}
    (h : Counts cell n) (hk : cell.order[k]? = some value) :
    value = BitVec.ofNat w k := by
  rw [h, List.getElem?_map, Option.map_eq_some_iff] at hk
  obtain ⟨i, hi, rfl⟩ := hk
  rw [List.getElem?_eq_some_iff] at hi
  obtain ⟨_, hi⟩ := hi
  rw [List.getElem_range] at hi
  rw [hi]

theorem Counts.current {cell : AtomicCell (BitVec w)} {n : ℕ} (h : Counts cell n) :
    cell.current = BitVec.ofNat w n := by
  have hcurrent := h.getElem cell.order_version
  rwa [h.version] at hcurrent

theorem Counts.store {cell : AtomicCell (BitVec w)} {n : ℕ} (h : Counts cell n)
    {value : BitVec w} (hvalue : value = BitVec.ofNat w n + 1) :
    Counts (cell.store value) (n + 1) := by
  unfold Counts at h ⊢
  rw [order_store, h, List.range_succ (n := n + 1), List.map_append, hvalue]
  simp [BitVec.ofNat_add]

/-- Two counts closer than the word size have their true difference as difference. -/
theorem toNat_ofNat_sub {a b : ℕ} (hba : b ≤ a) (hdiff : a - b < 2 ^ w) :
    (BitVec.ofNat w a - BitVec.ofNat w b).toNat = a - b := by
  have heq : BitVec.ofNat w a - BitVec.ofNat w b = BitVec.ofNat w (a - b) := by
    have hsum : BitVec.ofNat w a = BitVec.ofNat w (a - b) + BitVec.ofNat w b := by
      rw [← BitVec.ofNat_add, Nat.sub_add_cancel hba]
    rw [hsum, BitVec.add_sub_cancel]
  rw [heq, BitVec.toNat_ofNat, Nat.mod_eq_of_lt hdiff]

theorem ofNat_sub_eq_iff {a b c : ℕ} (hba : b ≤ a) (hdiff : a - b < 2 ^ w) (hc : c < 2 ^ w) :
    BitVec.ofNat w a - BitVec.ofNat w b = BitVec.ofNat w c ↔ a - b = c := by
  rw [← BitVec.toNat_inj, toNat_ofNat_sub hba hdiff, BitVec.toNat_ofNat, Nat.mod_eq_of_lt hc]

theorem ofNat_eq_iff {a b : ℕ} (hba : b ≤ a) (hdiff : a - b < 2 ^ w) :
    BitVec.ofNat w b = BitVec.ofNat w a ↔ b = a := by
  constructor
  · intro h
    have hzero := toNat_ofNat_sub hba hdiff
    rw [← h, BitVec.sub_self] at hzero
    simp only [BitVec.toNat_zero] at hzero
    omega
  · rintro rfl
    rfl

/-- Masking a wrapped count with a power of two minus one reduces the true count. -/
theorem toNat_and_mask (n k : ℕ) (hk : k < w) :
    (BitVec.ofNat w n &&& (BitVec.ofNat w (2 ^ k) - 1)).toNat = n % 2 ^ k := by
  have hlt : 2 ^ k < 2 ^ w := Nat.pow_lt_pow_right (by omega) hk
  have hmask : (BitVec.ofNat w (2 ^ k) - 1).toNat = 2 ^ k - 1 := by
    have h := toNat_ofNat_sub (w := w) Nat.one_le_two_pow
      (Nat.lt_of_le_of_lt (Nat.sub_le (2 ^ k) 1) hlt)
    exact h
  rw [BitVec.toNat_and, hmask, Nat.and_two_pow_sub_one_eq_mod, BitVec.toNat_ofNat,
    Nat.mod_mod_of_dvd _ (pow_dvd_pow 2 hk.le)]

end Counter

/-- Within a window shorter than the modulus, residues identify the index. -/
theorem eq_of_mod_eq {a b c : ℕ} (hba : b ≤ a) (hwindow : a - b < c) (hmod : b % c = a % c) :
    b = a := by
  have hdvd : c ∣ a - b := (Nat.modEq_iff_dvd' hba).mp hmod
  have hzero := Nat.eq_zero_of_dvd_of_lt hdvd hwindow
  omega

end ProtobufKafkaBench.AtomicCells

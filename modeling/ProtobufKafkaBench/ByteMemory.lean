import ProtobufKafkaBench.ByteBuffers

/-!
Memory as a function from addresses to bytes, changed by filling blocks. After
any number of fills an address holds what the last fill covering it has put
there, so a block that was there before is read back unchanged exactly when the
last fill of each of its bytes has put the same byte.
-/
namespace ProtobufKafkaBench.ByteMemory

open ByteBuffers

abbrev Memory := ℕ → UInt8

/-- The byte that a block at `address` has for `index`. -/
def byteAt (address : ℕ) (bytes : Bytes) (index : ℕ) : Option UInt8 :=
  if index < address then none else bytes[index - address]?

def fill (memory : Memory) (address : ℕ) (bytes : Bytes) : Memory :=
  fun index => (byteAt address bytes index).getD (memory index)

def read (memory : Memory) (address size : ℕ) : Bytes :=
  (List.range size).map fun i => memory (address + i)

theorem read_length (memory : Memory) (address size : ℕ) :
    (read memory address size).length = size := by
  rw [read, List.length_map, List.length_range]

/-- A shorter read is the start of a longer one. -/
theorem read_take {memory : Memory} {address size longer : ℕ} (h : size ≤ longer) :
    read memory address size = (read memory address longer).take size := by
  rw [read, read, ← List.map_take, List.take_range, Nat.min_eq_left h]

theorem read_eq_iff {memory : Memory} {address : ℕ} {bytes : Bytes} :
    read memory address bytes.length = bytes ↔
      ∀ i (hi : i < bytes.length), memory (address + i) = bytes[i] := by
  constructor
  · intro h i hi
    have hbyte : (read memory address bytes.length)[i]? = bytes[i]? := by rw [h]
    rw [read, List.getElem?_map, List.getElem?_range hi, List.getElem?_eq_getElem hi] at hbyte
    exact Option.some.inj hbyte
  · intro h
    apply List.ext_getElem (read_length _ _ _)
    intro i _ hi
    rw [← h i hi]
    simp [read]

/-- The start of a block that has just been filled. -/
theorem read_fill (memory : Memory) (address : ℕ) (bytes rest : Bytes) :
    read (fill memory address (bytes ++ rest)) address bytes.length = bytes := by
  apply read_eq_iff.mpr
  intro i hi
  have hcovered : byteAt address (bytes ++ rest) (address + i) = some bytes[i] := by
    rw [byteAt, if_neg (by omega), Nat.add_sub_cancel_left, List.getElem?_append_left hi,
      List.getElem?_eq_getElem hi]
  rw [fill, hcovered, Option.getD_some]

/-- A block filled right after what was read before extends it. -/
theorem read_fill_append {memory : Memory} {address : ℕ} {text : Bytes}
    (h : read memory address text.length = text) (data : Bytes) :
    read (fill memory (address + text.length) data) address (text ++ data).length =
      text ++ data := by
  apply read_eq_iff.mpr
  intro i hi
  simp only [List.length_append] at hi
  by_cases hold : i < text.length
  · have hbyte : byteAt (address + text.length) data (address + i) = none :=
      if_pos (by omega)
    have hkept := read_eq_iff.mp h i hold
    simp only [fill, hbyte, Option.getD_none, hkept, List.getElem_append_left hold]
  · have hindex : address + i - (address + text.length) = i - text.length := by omega
    have hnew : i - text.length < data.length := by omega
    have hbyte : byteAt (address + text.length) data (address + i) =
        some data[i - text.length] := by
      simp only [byteAt, hindex, List.getElem?_eq_getElem hnew]
      exact if_neg (by omega)
    simp only [fill, hbyte, Option.getD_some, List.getElem_append_right (Nat.le_of_not_lt hold)]

section Fills

def fillAll (memory : Memory) (fills : List (ℕ × Bytes)) : Memory :=
  fills.foldl (fun current block => fill current block.1 block.2) memory

/-- What the last fill covering the address has put there. -/
def lastFill : List (ℕ × Bytes) → ℕ → Option UInt8
  | [], _ => none
  | (address, bytes) :: rest, index => (lastFill rest index).or (byteAt address bytes index)

theorem fillAll_apply (memory : Memory) (fills : List (ℕ × Bytes)) (index : ℕ) :
    fillAll memory fills index = (lastFill fills index).getD (memory index) := by
  induction fills generalizing memory with
  | nil => rfl
  | cons block rest ih =>
    obtain ⟨address, bytes⟩ := block
    have hrest : fillAll memory ((address, bytes) :: rest) =
        fillAll (fill memory address bytes) rest := rfl
    rw [hrest, ih, lastFill, fill]
    cases lastFill rest index with
    | none => rfl
    | some byte => rfl

/-- Each byte of the block was last filled with itself, if it was filled at all. -/
def Kept (fills : List (ℕ × Bytes)) (address : ℕ) (bytes : Bytes) : Prop :=
  ∀ i (hi : i < bytes.length),
    lastFill fills (address + i) = none ∨ lastFill fills (address + i) = some bytes[i]

instance (fills : List (ℕ × Bytes)) (address : ℕ) (bytes : Bytes) :
    Decidable (Kept fills address bytes) :=
  inferInstanceAs (Decidable (∀ i (hi : i < bytes.length),
    lastFill fills (address + i) = none ∨ lastFill fills (address + i) = some bytes[i]))

/-- A block in memory is still there after some fills exactly when they have kept it. -/
theorem read_fillAll_iff {memory : Memory} {address : ℕ} {bytes : Bytes}
    (h : read memory address bytes.length = bytes) (fills : List (ℕ × Bytes)) :
    read (fillAll memory fills) address bytes.length = bytes ↔ Kept fills address bytes := by
  rw [read_eq_iff] at h ⊢
  constructor
  · intro hread i hi
    have hbyte := hread i hi
    rw [fillAll_apply] at hbyte
    cases hlast : lastFill fills (address + i) with
    | none => exact Or.inl rfl
    | some byte =>
      rw [hlast] at hbyte
      exact Or.inr (congrArg some hbyte)
  · intro hkept i hi
    rw [fillAll_apply]
    rcases hkept i hi with hlast | hlast
    · rw [hlast]
      exact h i hi
    · rw [hlast]
      rfl

end Fills

end ProtobufKafkaBench.ByteMemory

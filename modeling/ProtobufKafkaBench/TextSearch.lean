import ProtobufKafkaBench.ByteBuffers

/-!
Searching a text for the first occurrence of a pattern from a position on, as
`std::string::find` does. The result is characterised by what the text holds
there and does not hold before.
-/
namespace ProtobufKafkaBench.TextSearch

open ByteBuffers

/-- The position of the first occurrence. -/
def findFirst (pattern : Bytes) : Bytes → Option ℕ
  | [] => if pattern = [] then some 0 else none
  | byte :: rest =>
    if pattern.isPrefixOf (byte :: rest) then some 0 else (findFirst pattern rest).map (· + 1)

/-- `text.find(pattern, position)`; `none` is `npos`. -/
def find (text pattern : Bytes) (position : ℕ) : Option ℕ :=
  (findFirst pattern (text.drop position)).map (position + ·)

/-- The pattern stands at `index`, and nowhere between `position` and there. -/
def FirstAt (text pattern : Bytes) (position index : ℕ) : Prop :=
  position ≤ index ∧ pattern <+: text.drop index ∧
    ∀ earlier, position ≤ earlier → earlier < index → ¬ pattern <+: text.drop earlier

theorem FirstAt.unique {text pattern : Bytes} {position i j : ℕ}
    (hi : FirstAt text pattern position i) (hj : FirstAt text pattern position j) : i = j := by
  obtain ⟨hpi, hi, hbefore⟩ := hi
  obtain ⟨hpj, hj, hbefore'⟩ := hj
  by_contra hne
  rcases Nat.lt_or_gt_of_ne hne with hlt | hlt
  · exact hbefore' i hpi hlt hi
  · exact hbefore j hpj hlt hj

variable {text pattern : Bytes} {position index : ℕ}

theorem findFirst_eq_some_iff (hpattern : pattern ≠ []) :
    findFirst pattern text = some index ↔ FirstAt text pattern 0 index := by
  induction text generalizing index with
  | nil => simp [findFirst, FirstAt, hpattern]
  | cons byte rest ih =>
    rw [findFirst]
    by_cases hhere : pattern <+: byte :: rest
    · rw [if_pos (List.isPrefixOf_iff_prefix.mpr hhere)]
      have hfirst : FirstAt (byte :: rest) pattern 0 0 :=
        ⟨le_rfl, hhere, fun _ _ hlt => absurd hlt (Nat.not_lt_zero _)⟩
      constructor
      · intro h
        rw [← Option.some.inj h]
        exact hfirst
      · intro h
        rw [hfirst.unique h]
    · rw [if_neg (fun h => hhere (List.isPrefixOf_iff_prefix.mp h))]
      cases index with
      | zero => simp [FirstAt, hhere]
      | succ index =>
        have hrest := @ih index
        rw [Option.map_eq_some_iff]
        constructor
        · intro h
          obtain ⟨found, hfound, hsucc⟩ := h
          obtain rfl : found = index := by omega
          obtain ⟨-, hat, hbefore⟩ := hrest.mp hfound
          refine ⟨Nat.zero_le _, hat, fun earlier _ hlt => ?_⟩
          cases earlier with
          | zero => exact hhere
          | succ earlier => exact hbefore earlier (Nat.zero_le _) (by omega)
        · intro h
          obtain ⟨-, hat, hbefore⟩ := h
          refine ⟨index, hrest.mpr ⟨Nat.zero_le _, hat, fun earlier _ hlt => ?_⟩, rfl⟩
          exact hbefore (earlier + 1) (Nat.zero_le _) (by omega)

theorem find_eq_some_iff (hpattern : pattern ≠ []) :
    find text pattern position = some index ↔ FirstAt text pattern position index := by
  rw [find, Option.map_eq_some_iff]
  constructor
  · intro h
    obtain ⟨offset, hoffset, rfl⟩ := h
    obtain ⟨-, hat, hbefore⟩ := (findFirst_eq_some_iff hpattern).mp hoffset
    rw [List.drop_drop] at hat
    refine ⟨Nat.le_add_right _ _, hat, fun earlier hle hlt => ?_⟩
    have hnot := hbefore (earlier - position) (Nat.zero_le _) (by omega)
    rwa [List.drop_drop, Nat.add_sub_cancel' hle] at hnot
  · intro h
    obtain ⟨hle, hat, hbefore⟩ := h
    refine ⟨index - position, ?_, by omega⟩
    apply (findFirst_eq_some_iff hpattern).mpr
    refine ⟨Nat.zero_le _, ?_, fun earlier _ hlt => ?_⟩
    · rwa [List.drop_drop, Nat.add_sub_cancel' hle]
    · rw [List.drop_drop]
      exact hbefore (position + earlier) (Nat.le_add_right _ _) (by omega)

theorem find_eq_none_iff (hpattern : pattern ≠ []) :
    find text pattern position = none ↔ ∀ index, ¬ FirstAt text pattern position index := by
  rw [Option.eq_none_iff_forall_ne_some]
  constructor
  · intro h index hfirst
    exact h index ((find_eq_some_iff hpattern).mpr hfirst)
  · intro h index hfind
    exact h index ((find_eq_some_iff hpattern).mp hfind)

section Barriers

/-- An occurrence does not reach over a byte that the pattern does not have. -/
theorem prefix_barrier_iff {before after : Bytes} {byte : UInt8} (hbyte : byte ∉ pattern) :
    pattern <+: before ++ byte :: after ↔ pattern <+: before := by
  refine ⟨fun h => ?_, fun h => h.trans (List.prefix_append _ _)⟩
  rcases Nat.le_total pattern.length before.length with hle | hle
  · exact List.prefix_of_prefix_length_le h (List.prefix_append _ _) hle
  · obtain ⟨rest, rfl⟩ := List.prefix_of_prefix_length_le (List.prefix_append _ _) h hle
    rw [List.prefix_append_right_inj] at h
    cases rest with
    | nil => rw [List.append_nil]
    | cons first rest =>
      obtain ⟨rfl, -⟩ := List.cons_prefix_cons.mp h
      exact absurd (List.mem_append_right before List.mem_cons_self) hbyte

theorem findFirst_append_barrier {before after : Bytes} {byte : UInt8} (hpattern : pattern ≠ [])
    (hbyte : byte ∉ pattern) : findFirst pattern (before ++ byte :: after) =
      (findFirst pattern before).or
        ((findFirst pattern after).map (before.length + 1 + ·)) := by
  have hshort : ∀ before : Bytes,
      pattern.isPrefixOf (before ++ byte :: after) = pattern.isPrefixOf before := by
    intro before
    rw [Bool.eq_iff_iff, List.isPrefixOf_iff_prefix, List.isPrefixOf_iff_prefix,
      prefix_barrier_iff hbyte]
  induction before with
  | nil =>
    have hnil : pattern.isPrefixOf [] = false := by
      cases pattern with
      | nil => exact absurd rfl hpattern
      | cons => rfl
    have hhere := hshort []
    rw [List.nil_append, hnil] at hhere
    have hempty : findFirst pattern [] = none := if_neg hpattern
    rw [List.nil_append, hempty, Option.none_or, findFirst, hhere]
    refine congrArg (fun f => (findFirst pattern after).map f) (funext fun n => ?_)
    rw [List.length_nil]
    omega
  | cons first before ih =>
    have hhere := hshort (first :: before)
    rw [List.cons_append] at hhere ⊢
    rw [findFirst, findFirst, hhere, ih]
    cases pattern.isPrefixOf (first :: before) with
    | true => rfl
    | false =>
      simp only [Bool.false_eq_true, if_false, Option.map_or, Option.map_map]
      refine congrArg (fun f => Option.or _ ((findFirst pattern after).map f)) (funext fun n => ?_)
      rw [Function.comp_apply, List.length_cons]
      omega

/-- A part of the text that has none of the bytes of the pattern parts the search. -/
theorem findFirst_append_middle {before middle after : Bytes} (hpattern : pattern ≠ [])
    (hmiddle : middle ≠ []) (hbytes : ∀ byte ∈ middle, byte ∉ pattern) :
    findFirst pattern (before ++ (middle ++ after)) = (findFirst pattern before).or
      ((findFirst pattern after).map (before.length + middle.length + ·)) := by
  induction middle generalizing before with
  | nil => exact absurd rfl hmiddle
  | cons byte middle ih =>
    have hbyte := hbytes byte List.mem_cons_self
    rw [List.cons_append, findFirst_append_barrier hpattern hbyte]
    cases middle with
    | nil => rfl
    | cons next middle =>
      have hrest := @ih [] (List.cons_ne_nil _ _) fun byte h =>
        hbytes byte (List.mem_cons_of_mem _ h)
      have hempty : findFirst pattern [] = none := if_neg hpattern
      rw [List.nil_append, hempty, Option.none_or] at hrest
      rw [hrest, Option.map_map]
      refine congrArg (fun f => Option.or _ ((findFirst pattern after).map f)) (funext fun n => ?_)
      simp only [Function.comp_apply, List.length_nil, List.length_cons]
      omega

end Barriers

section SingleByte

variable {byte : UInt8}

theorem findFirst_byte_eq_none (h : findFirst [byte] text = none) : byte ∉ text := by
  induction text with
  | nil => exact List.not_mem_nil
  | cons first rest ih =>
    rw [findFirst] at h
    by_cases hhere : [byte].isPrefixOf (first :: rest) = true
    · rw [if_pos hhere] at h
      cases h
    · rw [if_neg hhere, Option.map_eq_none_iff] at h
      refine List.not_mem_cons_of_ne_of_not_mem ?_ (ih h)
      intro heq
      apply hhere
      simp [heq]

/-- A byte that is found has a part without it before and the rest of the text after. -/
theorem findFirst_byte_eq_some (h : findFirst [byte] text = some index) :
    text = text.take index ++ byte :: text.drop (index + 1) ∧ byte ∉ text.take index := by
  induction text generalizing index with
  | nil => cases h
  | cons first rest ih =>
    rw [findFirst] at h
    by_cases hhere : [byte].isPrefixOf (first :: rest) = true
    · rw [if_pos hhere] at h
      obtain rfl := Option.some.inj h
      have hfirst : byte = first := by simpa using hhere
      rw [hfirst]
      exact ⟨rfl, List.not_mem_nil⟩
    · rw [if_neg hhere, Option.map_eq_some_iff] at h
      obtain ⟨found, hfound, rfl⟩ := h
      obtain ⟨hsplit, hnot⟩ := ih hfound
      rw [List.take_succ_cons, List.drop_succ_cons]
      refine ⟨congrArg (first :: ·) hsplit, List.not_mem_cons_of_ne_of_not_mem ?_ hnot⟩
      intro heq
      apply hhere
      simp [heq]

theorem findFirst_byte_append {before after : Bytes} :
    findFirst [byte] (before ++ byte :: after) =
      (findFirst [byte] before).or (some before.length) := by
  induction before with
  | nil => simp [findFirst]
  | cons first before ih =>
    rw [List.cons_append, findFirst, findFirst]
    by_cases heq : byte = first
    · simp [heq]
    · have hhere : [byte].isPrefixOf (first :: before) ≠ true := by simpa using heq
      have hhere' : [byte].isPrefixOf (first :: (before ++ byte :: after)) ≠ true := by
        simpa using heq
      rw [if_neg hhere, if_neg hhere', ih, Option.map_or]
      rfl

end SingleByte

end ProtobufKafkaBench.TextSearch

import ProtobufKafkaBench.Exceptions
import Mathlib.Data.List.Perm.Basic
import Mathlib.Data.List.Nodup
import Mathlib.Data.List.Induction

/-!
Grouping rows by a key in order of first appearance, as an insertion-ordered
dictionary of lists does. Rows that come in blocks, each block carrying the same
sequence of distinct labels, have that sequence in every group exactly when
each block has one key and no two blocks share theirs.
-/
namespace ProtobufKafkaBench.Grouping

variable {ρ κ τ : Type*} [DecidableEq κ]

/-- `groups.setdefault(key, []).append(row)`. -/
def addTo (groups : List (κ × List ρ)) (key : κ) (row : ρ) : List (κ × List ρ) :=
  match groups with
  | [] => [(key, [row])]
  | (k, rows) :: rest =>
    if k = key then (k, rows ++ [row]) :: rest else (k, rows) :: addTo rest key row

def groupRows (key : ρ → κ) (rows : List ρ) : List (κ × List ρ) :=
  rows.foldl (fun groups row => addTo groups (key row) row) []

/-- The rows under a key, which are none for a key that is missing. -/
def groupOf (groups : List (κ × List ρ)) (key : κ) : List ρ := (groups.lookup key).getD []

/-- The rows with one key, in their order. -/
def withKey (key : ρ → κ) (rows : List ρ) (k : κ) : List ρ := rows.filter fun row => key row = k

section Groups

theorem withKey_eq_self {key : ρ → κ} {rows : List ρ} {k : κ} (h : ∀ row ∈ rows, key row = k) :
    withKey key rows k = rows := by
  unfold withKey
  exact List.filter_eq_self.mpr fun row hrow => decide_eq_true (h row hrow)

theorem withKey_eq_nil {key : ρ → κ} {rows : List ρ} {k : κ} (h : ∀ row ∈ rows, key row ≠ k) :
    withKey key rows k = [] := by
  unfold withKey
  exact List.filter_eq_nil_iff.mpr fun row hrow hk => h row hrow (of_decide_eq_true hk)

theorem mem_keys_addTo (groups : List (κ × List ρ)) (key k : κ) (row : ρ) :
    k ∈ (addTo groups key row).map Prod.fst ↔ k ∈ groups.map Prod.fst ∨ k = key := by
  induction groups with
  | nil => simp [addTo]
  | cons group rest ih =>
    obtain ⟨k', rows⟩ := group
    unfold addTo
    by_cases heq : k' = key
    · rw [if_pos heq]
      simp only [List.map_cons, List.mem_cons]
      constructor
      · exact Or.inl
      · intro h
        rcases h with h | h
        · exact h
        · exact Or.inl (h.trans heq.symm)
    · rw [if_neg heq]
      simp only [List.map_cons, List.mem_cons, ih, or_assoc]

theorem keys_addTo (groups : List (κ × List ρ)) (key : κ) (row : ρ) :
    (addTo groups key row).map Prod.fst =
      if key ∈ groups.map Prod.fst then groups.map Prod.fst
      else groups.map Prod.fst ++ [key] := by
  induction groups with
  | nil => rfl
  | cons group rest ih =>
    obtain ⟨k, rows⟩ := group
    unfold addTo
    by_cases heq : k = key
    · simp [heq]
    · by_cases hmem : key ∈ rest.map Prod.fst
      · simp [heq, Ne.symm heq, ih, hmem]
      · simp [heq, Ne.symm heq, ih, hmem]

theorem addTo_nodup {groups : List (κ × List ρ)} (h : (groups.map Prod.fst).Nodup) (key : κ)
    (row : ρ) : ((addTo groups key row).map Prod.fst).Nodup := by
  induction groups with
  | nil => simp [addTo]
  | cons group rest ih =>
    obtain ⟨k', rows⟩ := group
    rw [List.map_cons, List.nodup_cons] at h
    unfold addTo
    by_cases heq : k' = key
    · rw [if_pos heq, List.map_cons, List.nodup_cons]
      exact h
    · rw [if_neg heq, List.map_cons, List.nodup_cons]
      refine ⟨?_, ih h.2⟩
      intro hmem
      rcases (mem_keys_addTo rest key k' row).mp hmem with hold | hnew
      · exact h.1 hold
      · exact heq hnew

theorem addTo_flatMap (groups : List (κ × List ρ)) (key : κ) (row : ρ) :
    ((addTo groups key row).flatMap Prod.snd).Perm (groups.flatMap Prod.snd ++ [row]) := by
  induction groups with
  | nil => exact List.Perm.refl _
  | cons group rest ih =>
    obtain ⟨k', rows⟩ := group
    unfold addTo
    by_cases heq : k' = key
    · rw [if_pos heq]
      simp only [List.flatMap_cons, List.append_assoc]
      exact List.Perm.append_left _ List.perm_append_comm
    · rw [if_neg heq]
      simp only [List.flatMap_cons, List.append_assoc]
      exact List.Perm.append_left _ ih

/-- A group of the extended dictionary is an old one, or that of the new row. -/
theorem mem_addTo {groups : List (κ × List ρ)} (hnodup : (groups.map Prod.fst).Nodup) {key : κ}
    {row : ρ} {group : κ × List ρ} (hmem : group ∈ addTo groups key row) :
    (group.1 ≠ key ∧ group ∈ groups) ∨
      (group.1 = key ∧ key ∉ groups.map Prod.fst ∧ group.2 = [row]) ∨
      ∃ rows, (key, rows) ∈ groups ∧ group = (key, rows ++ [row]) := by
  induction groups with
  | nil =>
    obtain rfl := List.mem_singleton.mp hmem
    exact Or.inr (Or.inl ⟨rfl, List.not_mem_nil, rfl⟩)
  | cons first rest ih =>
    obtain ⟨k', rows⟩ := first
    rw [List.map_cons, List.nodup_cons] at hnodup
    unfold addTo at hmem
    by_cases heq : k' = key
    · rw [if_pos heq] at hmem
      subst heq
      rcases List.mem_cons.mp hmem with rfl | hrest
      · exact Or.inr (Or.inr ⟨rows, List.mem_cons_self, rfl⟩)
      · refine Or.inl ⟨?_, List.mem_cons_of_mem _ hrest⟩
        intro hkey
        exact hnodup.1 (List.mem_map.mpr ⟨group, hrest, hkey⟩)
    · rw [if_neg heq] at hmem
      rcases List.mem_cons.mp hmem with rfl | hrest
      · exact Or.inl ⟨heq, List.mem_cons_self⟩
      · rcases ih hnodup.2 hrest with ⟨hne, hold⟩ | ⟨hkey, hnew, hrow⟩ | ⟨old, hold, rfl⟩
        · exact Or.inl ⟨hne, List.mem_cons_of_mem _ hold⟩
        · refine Or.inr (Or.inl ⟨hkey, ?_, hrow⟩)
          intro hmem'
          rcases List.mem_cons.mp hmem' with hhead | htail
          · exact heq hhead.symm
          · exact hnew htail
        · exact Or.inr (Or.inr ⟨old, List.mem_cons_of_mem _ hold, rfl⟩)

variable (key : ρ → κ)

theorem groupRows_snoc (rows : List ρ) (row : ρ) :
    groupRows key (rows ++ [row]) = addTo (groupRows key rows) (key row) row := by
  simp [groupRows]

theorem groupRows_nodup (rows : List ρ) : ((groupRows key rows).map Prod.fst).Nodup := by
  induction rows using List.reverseRecOn with
  | nil => exact List.nodup_nil
  | append_singleton rows row ih =>
    rw [groupRows_snoc]
    exact addTo_nodup ih (key row) row

theorem mem_keys_groupRows (rows : List ρ) (k : κ) :
    k ∈ (groupRows key rows).map Prod.fst ↔ k ∈ rows.map key := by
  induction rows using List.reverseRecOn with
  | nil => rfl
  | append_singleton rows row ih =>
    rw [groupRows_snoc, mem_keys_addTo, ih, List.map_append, List.mem_append]
    simp

/-- Every row is in exactly one group. -/
theorem groupRows_flatMap (rows : List ρ) :
    ((groupRows key rows).flatMap Prod.snd).Perm rows := by
  induction rows using List.reverseRecOn with
  | nil => exact List.Perm.refl _
  | append_singleton rows row ih =>
    rw [groupRows_snoc]
    exact (addTo_flatMap _ _ _).trans (ih.append_right _)

/-- A group holds the rows with its key, in their order. -/
theorem groupRows_values (rows : List ρ) :
    ∀ group ∈ groupRows key rows, group.2 = withKey key rows group.1 := by
  induction rows using List.reverseRecOn with
  | nil => exact fun _ hmem => absurd hmem List.not_mem_nil
  | append_singleton rows row ih =>
    intro group hmem
    rw [groupRows_snoc] at hmem
    have hsnoc : ∀ k, withKey key (rows ++ [row]) k =
        withKey key rows k ++ if key row = k then [row] else [] := by
      intro k
      unfold withKey
      rw [List.filter_append, List.filter_singleton]
      simp
    rw [hsnoc]
    rcases mem_addTo (groupRows_nodup key rows) hmem with ⟨hne, hold⟩ | ⟨hkey, hnew, hrow⟩ |
      ⟨old, hold, rfl⟩
    · rw [if_neg (Ne.symm hne), List.append_nil]
      exact ih group hold
    · have hnone : withKey key rows group.1 = [] := by
        unfold withKey
        rw [List.filter_eq_nil_iff]
        intro r hr hk
        apply hnew
        rw [mem_keys_groupRows, ← hkey, ← of_decide_eq_true hk]
        exact List.mem_map_of_mem hr
      rw [hnone, if_pos hkey.symm, hrow]
      rfl
    · rw [if_pos rfl, ← ih _ hold]

theorem groupRows_ne_nil (rows : List ρ) : ∀ group ∈ groupRows key rows, group.2 ≠ [] := by
  intro group hgroup hnil
  have hkey := (mem_keys_groupRows key rows group.1).mp (List.mem_map_of_mem hgroup)
  obtain ⟨row, hrow, hrow'⟩ := List.mem_map.mp hkey
  rw [groupRows_values key rows group hgroup, withKey, List.filter_eq_nil_iff] at hnil
  exact hnil row hrow (decide_eq_true hrow')

theorem groupRows_lookup (rows : List ρ) (k : κ) :
    ((groupRows key rows).lookup k).getD [] = withKey key rows k := by
  cases hlookup : (groupRows key rows).lookup k with
  | none =>
    have hnone : k ∉ rows.map key := by
      rw [← mem_keys_groupRows]
      intro hk
      obtain ⟨group, hgroup, rfl⟩ := List.mem_map.mp hk
      simpa using List.lookup_eq_none_iff.mp hlookup group hgroup
    symm
    apply withKey_eq_nil
    intro row hrow hkey
    exact hnone (hkey ▸ List.mem_map_of_mem hrow)
  | some group =>
    obtain ⟨before, after, heq, -⟩ := List.lookup_eq_some_iff.mp hlookup
    have hmem : (k, group) ∈ groupRows key rows := by
      rw [heq]
      exact List.mem_append_right _ List.mem_cons_self
    exact groupRows_values key rows _ hmem

theorem groupOf_groupRows (rows : List ρ) (k : κ) :
    groupOf (groupRows key rows) k = withKey key rows k := groupRows_lookup key rows k

/-- Rows that were read first are grouped as the rows are. -/
theorem addTo_map {σ : Type*} (f : ρ → σ) (groups : List (κ × List ρ)) (k : κ) (row : ρ) :
    addTo (groups.map fun group => (group.1, group.2.map f)) k (f row) =
      (addTo groups k row).map fun group => (group.1, group.2.map f) := by
  induction groups with
  | nil => rfl
  | cons group rest ih =>
    obtain ⟨k', rows⟩ := group
    rw [List.map_cons, addTo, addTo, ih]
    by_cases heq : k' = k
    · rw [if_pos heq, if_pos heq, List.map_cons, List.map_append]
      rfl
    · rw [if_neg heq, if_neg heq, List.map_cons]

theorem groupRows_map {σ : Type*} (f : ρ → σ) (key : σ → κ) (rows : List ρ) :
    groupRows key (rows.map f) =
      (groupRows (fun row => key (f row)) rows).map fun group => (group.1, group.2.map f) := by
  induction rows using List.reverseRecOn with
  | nil => rfl
  | append_singleton rows row ih =>
    rw [List.map_append, List.map_singleton, groupRows_snoc, groupRows_snoc, ih, addTo_map]

/-- No group has a label twice exactly when no key comes with a label twice. -/
theorem nodup_labels_iff (label : ρ → τ) (rows : List ρ) :
    (∀ group ∈ groupRows key rows, (group.2.map label).Nodup) ↔
      (rows.map fun row => (key row, label row)).Nodup := by
  simp only [List.Nodup, List.pairwise_map, ne_eq, Prod.mk.injEq, not_and]
  constructor
  · intro h
    rw [List.pairwise_iff_getElem]
    intro i j hi hj hij heq
    have hkey := (mem_keys_groupRows key rows _).mpr (List.mem_map_of_mem (List.getElem_mem hj))
    obtain ⟨group, hgroup, hkey⟩ := List.mem_map.mp hkey
    have hlabels := h group hgroup
    rw [groupRows_values key rows group hgroup, withKey, List.pairwise_filter, hkey] at hlabels
    simp only [decide_eq_true_eq] at hlabels
    exact List.pairwise_iff_getElem.mp hlabels i j hi hj hij heq rfl
  · intro h group hgroup
    rw [groupRows_values key rows group hgroup, withKey, List.pairwise_filter]
    apply h.imp
    intro x y hxy hx hy
    exact hxy ((of_decide_eq_true hx).trans (of_decide_eq_true hy).symm)

end Groups

section Readings

open Exceptions

variable {ρ κ ε : Type} [DecidableEq κ]

/-- Grouping by a key that is read from the row, which may fail. -/
def groupRowsM (read : ρ → Except ε κ) (rows : List ρ) : Except ε (List (κ × List ρ)) :=
  rows.foldlM (fun groups row => do return addTo groups (← read row) row) []

theorem groupRowsM_ok {read : ρ → Except ε κ} {key : ρ → κ} {rows : List ρ}
    (h : ∀ row ∈ rows, read row = .ok (key row)) :
    groupRowsM read rows = .ok (groupRows key rows) := by
  have hfrom : ∀ start, rows.foldlM
      (fun groups row => do return addTo groups (← read row) row) start =
        (.ok (rows.foldl (fun groups row => addTo groups (key row) row) start) :
          Except ε _) := by
    induction rows with
    | nil => exact fun _ => rfl
    | cons row rest ih =>
      intro start
      rw [List.foldlM_cons, h row List.mem_cons_self]
      exact ih (fun r hr => h r (List.mem_cons_of_mem row hr)) _
  exact hfrom []

theorem read_ok_of_groupRowsM {read : ρ → Except ε κ} {rows : List ρ} {groups : List (κ × List ρ)}
    (h : groupRowsM read rows = .ok groups) : ∀ row ∈ rows, ∃ k, read row = .ok k := by
  unfold groupRowsM at h
  generalize [] = start at h
  induction rows generalizing start with
  | nil => simp
  | cons row rest ih =>
    rw [List.foldlM_cons, bind_eq_ok] at h
    obtain ⟨middle, hmiddle, hrest⟩ := h
    obtain ⟨k, hk, -⟩ := bind_eq_ok.mp hmiddle
    rw [List.forall_mem_cons]
    exact ⟨⟨k, hk⟩, ih middle hrest⟩

/-- Where all keys can be read, the groups are those of the keys. -/
theorem groupRows_of_groupRowsM {read : ρ → Except ε κ} {key : ρ → κ}
    (hread : ∀ row k, read row = .ok k → key row = k) {rows : List ρ}
    {groups : List (κ × List ρ)} (h : groupRowsM read rows = .ok groups) :
    groupRows key rows = groups := by
  have hkeys : ∀ row ∈ rows, read row = .ok (key row) := by
    intro row hrow
    obtain ⟨k, hk⟩ := read_ok_of_groupRowsM h row hrow
    rw [hk, hread row k hk]
  exact Except.ok.inj ((groupRowsM_ok hkeys).symm.trans h)

end Readings

section Blocks

variable {key : ρ → κ} {label : ρ → τ} {labels : List τ}

/-- An initial part of distinct labels that reaches the last one is all of them. -/
theorem eq_of_prefix_of_last_mem {values : List τ} {last : τ} (hnodup : labels.Nodup)
    (hstart : values <+: labels) (hlast : labels.getLast? = some last) (hmem : last ∈ values) :
    values = labels := by
  obtain ⟨rest, rfl⟩ := hstart
  cases rest using List.reverseRecOn with
  | nil => rw [List.append_nil]
  | append_singleton rest final =>
    rw [← List.append_assoc, List.getLast?_concat] at hlast
    obtain rfl := Option.some.inj hlast
    have hdisjoint := List.disjoint_of_nodup_append hnodup
    exact absurd (List.mem_append_right rest (List.mem_singleton.mpr rfl)) (hdisjoint hmem)

/-- If all rows of the blocks, grouped, carry the labels in order, then so does the
first block on its own: it has one key, which no later row has. -/
theorem first_block_alone {block rest : List ρ} (hnodup : labels.Nodup) (hne : labels ≠ [])
    (hblock : block.map label = labels)
    (hgroups : ∀ k ∈ (block ++ rest).map key,
      (withKey key (block ++ rest) k).map label = labels) :
    ∃ k, (∀ row ∈ block, key row = k) ∧ ∀ row ∈ rest, key row ≠ k := by
  cases block using List.reverseRecOn with
  | nil => exact absurd hblock.symm hne
  | append_singleton front final =>
    have hmem : final ∈ front ++ [final] := List.mem_append_right _ (List.mem_singleton.mpr rfl)
    have hgroup := hgroups (key final) (List.mem_map_of_mem (List.mem_append_left _ hmem))
    have hfinal : final ∈ withKey key (front ++ [final]) (key final) := by
      unfold withKey
      exact List.mem_filter.mpr ⟨hmem, decide_eq_true rfl⟩
    have hsplit : withKey key (front ++ [final] ++ rest) (key final) =
        withKey key (front ++ [final]) (key final) ++ withKey key rest (key final) :=
      List.filter_append ..
    rw [hsplit, List.map_append] at hgroup
    have hlast : labels.getLast? = some (label final) := by
      rw [← hblock, List.map_append]
      exact List.getLast?_concat
    have hall := eq_of_prefix_of_last_mem hnodup ⟨_, hgroup⟩ hlast (List.mem_map_of_mem hfinal)
    refine ⟨key final, ?_, ?_⟩
    · have hlength := congrArg List.length (hall.trans hblock.symm)
      rw [List.length_map, List.length_map] at hlength
      intro row hrow
      have hkept := (List.length_filter_eq_length_iff.mp hlength) row hrow
      exact of_decide_eq_true hkept
    · intro row hrow hkey
      rw [hall] at hgroup
      have hnil := List.append_right_eq_self.mp hgroup
      have hempty : withKey key rest (key final) = [] := List.map_eq_nil_iff.mp hnil
      have hin : row ∈ withKey key rest (key final) := by
        unfold withKey
        exact List.mem_filter.mpr ⟨hrow, decide_eq_true hkey⟩
      rw [hempty] at hin
      exact List.not_mem_nil hin

/-- Blocks with one key each and pairwise different keys. -/
def Separated (key : ρ → κ) (blocks : List (List ρ)) : Prop :=
  (∀ block ∈ blocks, ∀ row ∈ block, ∀ row' ∈ block, key row = key row') ∧
    blocks.Pairwise fun block block' => ∀ row ∈ block, ∀ row' ∈ block', key row ≠ key row'

theorem withKey_append (key : ρ → κ) (rows rest : List ρ) (k : κ) :
    withKey key (rows ++ rest) k = withKey key rows k ++ withKey key rest k :=
  List.filter_append ..

/-- Every group carries the labels in order exactly when the blocks are separated. -/
theorem groups_labelled_iff_separated (hnodup : labels.Nodup) (hne : labels ≠ [])
    {blocks : List (List ρ)} (hblocks : ∀ block ∈ blocks, block.map label = labels) :
    (∀ k ∈ blocks.flatten.map key, (withKey key blocks.flatten k).map label = labels) ↔
      Separated key blocks := by
  induction blocks with
  | nil => simp [Separated]
  | cons block rest ih =>
    have hblock := hblocks block List.mem_cons_self
    have hrest := ih fun b hb => hblocks b (List.mem_cons_of_mem block hb)
    rw [List.flatten_cons]
    constructor
    · intro hgroups
      obtain ⟨k, hone, hother⟩ := first_block_alone hnodup hne hblock hgroups
      have hseparated := hrest.mp (by
        intro k' hk'
        obtain ⟨row, hrow, rfl⟩ := List.mem_map.mp hk'
        have hgroup := hgroups (key row) (List.mem_map_of_mem (List.mem_append_right _ hrow))
        have hnil : withKey key block (key row) = [] := by
          apply withKey_eq_nil
          intro r hr
          rw [hone r hr]
          exact (hother row hrow).symm
        rwa [withKey_append, hnil, List.nil_append] at hgroup)
      refine ⟨?_, List.pairwise_cons.mpr ⟨?_, hseparated.2⟩⟩
      · intro b hb
        rcases List.mem_cons.mp hb with rfl | hb
        · intro row hrow row' hrow'
          rw [hone row hrow, hone row' hrow']
        · exact hseparated.1 b hb
      · intro b hb row hrow row' hrow'
        rw [hone row hrow]
        exact (hother row' (List.mem_flatten_of_mem hb hrow')).symm
    · intro hseparated
      obtain ⟨hhead, htail⟩ := List.pairwise_cons.mp hseparated.2
      have hgroups := hrest.mpr
        ⟨fun b hb => hseparated.1 b (List.mem_cons_of_mem block hb), htail⟩
      intro k hk
      rw [List.map_append, List.mem_append] at hk
      rw [withKey_append]
      rcases hk with hk | hk
      · obtain ⟨row, hrow, rfl⟩ := List.mem_map.mp hk
        have hnil : withKey key rest.flatten (key row) = [] := by
          apply withKey_eq_nil
          intro r hr
          obtain ⟨b, hb, hrb⟩ := List.mem_flatten.mp hr
          exact (hhead b hb row hrow r hrb).symm
        have hself : withKey key block (key row) = block :=
          withKey_eq_self fun r hr => hseparated.1 block List.mem_cons_self r hr row hrow
        rw [hnil, hself, List.append_nil]
        exact hblock
      · obtain ⟨row, hrow, rfl⟩ := List.mem_map.mp hk
        obtain ⟨b, hb, hrb⟩ := List.mem_flatten.mp hrow
        have hnil : withKey key block (key row) = [] :=
          withKey_eq_nil fun r hr => hhead b hb r hr row hrb
        rw [hnil, List.nil_append]
        exact hgroups (key row) (List.mem_map_of_mem hrow)

end Blocks

section Plans

variable {key : ρ → κ} {first rest rows : List ρ}

theorem groupRows_eq (rows : List ρ) :
    groupRows key rows =
      ((groupRows key rows).map Prod.fst).map fun k => (k, withKey key rows k) := by
  rw [List.map_map]
  refine (List.map_id _).symm.trans (List.map_congr_left fun group hgroup => ?_)
  exact Prod.ext rfl (groupRows_values key rows group hgroup)

/-- Rows of keys that have been seen add no groups. -/
theorem keys_groupRows_append (h : ∀ row ∈ rest, key row ∈ first.map key) :
    (groupRows key (first ++ rest)).map Prod.fst = (groupRows key first).map Prod.fst := by
  induction rest using List.reverseRecOn with
  | nil => rw [List.append_nil]
  | append_singleton rest row ih =>
    have hrest := ih fun row hrow => h row (List.mem_append_left _ hrow)
    have hrow : key row ∈ (groupRows key first).map Prod.fst := by
      rw [mem_keys_groupRows]
      exact h row (List.mem_append_right _ List.mem_cons_self)
    rw [← List.append_assoc, groupRows_snoc, keys_addTo, hrest, if_pos hrow]

/-- Rows with different keys are their own groups. -/
theorem keys_groupRows_of_nodup (h : (rows.map key).Nodup) :
    (groupRows key rows).map Prod.fst = rows.map key := by
  induction rows using List.reverseRecOn with
  | nil => rfl
  | append_singleton rows row ih =>
    rw [List.map_append, List.map_singleton] at h
    have hnew := List.disjoint_of_nodup_append h
    have hrow : key row ∉ rows.map key := fun hmem => hnew hmem (List.mem_singleton_self _)
    rw [groupRows_snoc, keys_addTo, ih h.of_append_left, if_neg hrow, List.map_append,
      List.map_singleton]

/-- A block of rows of a new key is a new group. -/
theorem groupRows_append_block {k : κ} {block : List ρ} (hfresh : k ∉ first.map key)
    (hkey : ∀ row ∈ block, key row = k) (hne : block ≠ []) :
    groupRows key (first ++ block) = groupRows key first ++ [(k, block)] := by
  obtain ⟨row, rest, hblock⟩ := List.exists_cons_of_ne_nil hne
  have hrow : key row = k := hkey row (hblock ▸ List.mem_cons_self)
  have hnew : k ∉ (groupRows key first).map Prod.fst := by
    rwa [mem_keys_groupRows]
  have hseen : ∀ other ∈ rest, key other ∈ (first ++ [row]).map key := by
    intro other hother
    rw [hkey other (hblock ▸ List.mem_cons_of_mem _ hother), ← hrow]
    exact List.mem_map_of_mem (List.mem_append_right _ (List.mem_singleton_self _))
  have hkeys : (groupRows key (first ++ block)).map Prod.fst =
      (groupRows key first).map Prod.fst ++ [k] := by
    rw [hblock, ← List.singleton_append, ← List.append_assoc, keys_groupRows_append hseen,
      groupRows_snoc, keys_addTo, hrow, if_neg hnew]
  rw [groupRows_eq, hkeys, List.map_append, List.map_singleton]
  congr 1
  · refine Eq.trans ?_ (groupRows_eq first).symm
    refine List.map_congr_left fun name hname => Prod.ext rfl ?_
    have hother : ∀ other ∈ block, key other ≠ name := by
      intro other hother heq
      rw [hkey other hother] at heq
      exact hnew (heq ▸ hname)
    rw [withKey_append, withKey_eq_nil hother, List.append_nil]
  · have hfirst : ∀ other ∈ first, key other ≠ k := by
      intro other hother heq
      exact hfresh (heq ▸ List.mem_map_of_mem hother)
    rw [withKey_append, withKey_eq_nil hfirst, withKey_eq_self hkey, List.nil_append]

/-- Rows that come in blocks, each of its own key, are grouped by these blocks. -/
theorem groupRows_blocks {ι : Type*} {indices : List ι} {name : ι → κ} {block : ι → List ρ}
    (hnodup : (indices.map name).Nodup)
    (hkey : ∀ index ∈ indices, ∀ row ∈ block index, key row = name index)
    (hne : ∀ index ∈ indices, block index ≠ []) :
    groupRows key (indices.flatMap block) = indices.map fun index => (name index, block index) := by
  induction indices using List.reverseRecOn with
  | nil => rfl
  | append_singleton indices last ih =>
    have hold : ∀ index ∈ indices, index ∈ indices ++ [last] := fun _ => List.mem_append_left _
    have hlast := List.mem_append_right indices (List.mem_singleton_self last)
    rw [List.map_append] at hnodup
    have hfresh : name last ∉ (indices.flatMap block).map key := by
      intro hmem
      obtain ⟨row, hrow, hname⟩ := List.mem_map.mp hmem
      obtain ⟨index, hindex, hrow⟩ := List.mem_flatMap.mp hrow
      have hindices : name last ∈ indices.map name := by
        rw [← hname, hkey index (hold index hindex) row hrow]
        exact List.mem_map_of_mem hindex
      exact List.disjoint_of_nodup_append hnodup hindices (List.mem_singleton_self _)
    rw [List.flatMap_append, List.flatMap_singleton,
      groupRows_append_block hfresh (hkey last hlast) (hne last hlast),
      ih hnodup.of_append_left (fun index hi => hkey index (hold index hi))
        fun index hi => hne index (hold index hi), List.map_append, List.map_singleton]

end Plans

end ProtobufKafkaBench.Grouping

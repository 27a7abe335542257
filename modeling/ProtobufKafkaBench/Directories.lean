import ProtobufKafkaBench.KeyedMembers

/-!
A directory as a finite map from names to contents. Writing to a name replaces
its content or adds the name; every other name keeps what it had.
-/
namespace ProtobufKafkaBench.Directories

open KeyedMembers

variable {Name Content : Type} [DecidableEq Name]

structure Directory (Name Content : Type) where
  entries : List (Name × Content)
  nodup : (entries.map Prod.fst).Nodup

namespace Directory

def names (d : Directory Name Content) : List Name := d.entries.map Prod.fst

def read (d : Directory Name Content) (name : Name) : Option Content := d.entries.lookup name

theorem mem_keys_assignLast {name other : Name} {content : Content}
    {entries : List (Name × Content)} :
    other ∈ (assignLast name content entries).map Prod.fst ↔
      other = name ∨ other ∈ entries.map Prod.fst := by
  induction entries with
  | nil => simp [assignLast]
  | cons entry rest ih =>
    obtain ⟨k, v⟩ := entry
    unfold assignLast
    by_cases heq : name = k
    · subst heq
      simp
    · rw [if_neg heq]
      simp only [List.map_cons, List.mem_cons, ih]
      exact or_left_comm

theorem nodup_assignLast {name : Name} {content : Content} {entries : List (Name × Content)}
    (h : (entries.map Prod.fst).Nodup) :
    ((assignLast name content entries).map Prod.fst).Nodup := by
  induction entries with
  | nil => simp [assignLast]
  | cons entry rest ih =>
    obtain ⟨k, v⟩ := entry
    rw [List.map_cons, List.nodup_cons] at h
    unfold assignLast
    by_cases heq : name = k
    · subst heq
      rw [if_pos rfl, List.map_cons, List.nodup_cons]
      exact h
    · rw [if_neg heq, List.map_cons, List.nodup_cons, mem_keys_assignLast, not_or]
      exact ⟨⟨Ne.symm heq, h.1⟩, ih h.2⟩

/-- Opening a file for writing and putting this content into it. -/
def write (d : Directory Name Content) (name : Name) (content : Content) :
    Directory Name Content where
  entries := assignLast name content d.entries
  nodup := nodup_assignLast d.nodup

/-- Removing all files whose names match. -/
def removeAll (d : Directory Name Content) (pattern : Name → Bool) : Directory Name Content where
  entries := d.entries.filter fun entry => !pattern entry.1
  nodup := d.nodup.sublist (List.filter_sublist.map _)

theorem read_write_other {d : Directory Name Content} {name other : Name} {content : Content}
    (h : other ≠ name) : (d.write name content).read other = d.read other :=
  lookup_assignLast.trans (if_neg h)

theorem read_write_self (d : Directory Name Content) (name : Name) (content : Content) :
    (d.write name content).read name = some content :=
  lookup_assignLast.trans (if_pos rfl)

theorem mem_entries_iff {d : Directory Name Content} {name : Name} {content : Content} :
    (name, content) ∈ d.entries ↔ d.read name = some content := by
  refine ⟨fun h => ?_, mem_of_lookup⟩
  obtain ⟨before, after, hentries⟩ := List.append_of_mem h
  refine List.lookup_eq_some_iff.mpr ⟨before, after, hentries, fun entry hentry => ?_⟩
  have hnodup := d.nodup
  rw [hentries, List.map_append, List.map_cons] at hnodup
  have hdisjoint := List.disjoint_of_nodup_append hnodup
  have hne : name ≠ entry.1 := fun heq =>
    hdisjoint (List.mem_map_of_mem hentry) (heq ▸ List.mem_cons_self)
  exact bne_iff_ne.mpr hne

theorem read_removeAll {d : Directory Name Content} {pattern : Name → Bool} {name : Name}
    (h : pattern name = true) : (d.removeAll pattern).read name = none := by
  cases hread : (d.removeAll pattern).read name with
  | none => rfl
  | some content =>
    have hmem := (List.mem_filter.mp (mem_entries_iff.mpr hread)).2
    rw [h] at hmem
    cases hmem

end Directory

end ProtobufKafkaBench.Directories

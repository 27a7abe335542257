import Mathlib.Data.List.Induction
import Mathlib.Data.List.Nodup
import Mathlib.Data.List.Perm.Basic

/-!
Objects as lists of members with assignment by key: in key order, or in order of
first assignment. As long as no key is assigned twice, an object holds exactly the
assignments made, whichever type it is of.
-/
namespace ProtobufKafkaBench.KeyedMembers

variable {K V : Type}

/-- The object after a sequence of assignments. -/
def assignAll (assign : K → V → List (K × V) → List (K × V)) (assignments : List (K × V)) :
    List (K × V) :=
  assignments.foldl (fun members member => assign member.1 member.2 members) []

theorem assignAll_concat (assign : K → V → List (K × V) → List (K × V))
    (assignments : List (K × V)) (member : K × V) :
    assignAll assign (assignments ++ [member]) =
      assign member.1 member.2 (assignAll assign assignments) := by
  rw [assignAll, List.foldl_concat]
  rfl

theorem key_new {assignments : List (K × V)} {member : K × V}
    (hnodup : ((assignments ++ [member]).map Prod.fst).Nodup) :
    (assignments.map Prod.fst).Nodup ∧ member.1 ∉ assignments.map Prod.fst := by
  rw [List.map_append, List.nodup_append] at hnodup
  obtain ⟨hrest, -, hdisjoint⟩ := hnodup
  exact ⟨hrest, fun hmem => hdisjoint _ hmem _ List.mem_cons_self rfl⟩

theorem mem_of_lookup [BEq K] [LawfulBEq K] {members : List (K × V)} {key : K} {value : V}
    (h : members.lookup key = some value) : (key, value) ∈ members := by
  obtain ⟨before, after, rfl, -⟩ := List.lookup_eq_some_iff.mp h
  exact List.mem_append_right before List.mem_cons_self

section InsertionOrder

variable [DecidableEq K]

/-- Assignment into a container that keeps the order of insertion. -/
def assignLast (key : K) (value : V) : List (K × V) → List (K × V)
  | [] => [(key, value)]
  | (k, v) :: rest =>
    if key = k then (key, value) :: rest else (k, v) :: assignLast key value rest

theorem assignLast_eq {key : K} {value : V} {members : List (K × V)}
    (h : key ∉ members.map Prod.fst) :
    assignLast key value members = members ++ [(key, value)] := by
  induction members with
  | nil => rfl
  | cons member rest ih =>
    obtain ⟨k, v⟩ := member
    rw [List.map_cons, List.mem_cons, not_or] at h
    rw [assignLast, if_neg h.1, ih h.2, List.cons_append]

theorem lookup_assignLast [BEq K] [LawfulBEq K] {key other : K} {value : V}
    {members : List (K × V)} :
    (assignLast key value members).lookup other =
      if other = key then some value else members.lookup other := by
  induction members with
  | nil => by_cases hkey : other = key <;> simp [assignLast, hkey]
  | cons member rest ih =>
    obtain ⟨k, v⟩ := member
    unfold assignLast
    by_cases hk : key = k
    · subst hk
      by_cases hkey : other = key
      · simp [hkey]
      · simp [List.lookup_cons, beq_false_of_ne hkey, hkey]
    · by_cases hother : other = k
      · subst hother
        simp [hk, Ne.symm hk]
      · simp [hk, List.lookup_cons, beq_false_of_ne hother, ih]

end InsertionOrder

section KeyOrder

variable [DecidableEq K] [LT K] [DecidableLT K]

/-- Assignment into a container kept in key order. -/
def assignSorted (key : K) (value : V) : List (K × V) → List (K × V)
  | [] => [(key, value)]
  | (k, v) :: rest =>
    if key = k then (key, value) :: rest
    else if key < k then (key, value) :: (k, v) :: rest
    else (k, v) :: assignSorted key value rest

theorem assignSorted_perm {key : K} {value : V} {members : List (K × V)}
    (h : key ∉ members.map Prod.fst) :
    (assignSorted key value members).Perm ((key, value) :: members) := by
  induction members with
  | nil => exact List.Perm.refl _
  | cons member rest ih =>
    obtain ⟨k, v⟩ := member
    rw [List.map_cons, List.mem_cons, not_or] at h
    rw [assignSorted, if_neg h.1]
    by_cases hlt : key < k
    · rw [if_pos hlt]
    · rw [if_neg hlt]
      exact ((ih h.2).cons (k, v)).trans (List.Perm.swap _ _ _)

end KeyOrder

section Types

/-- An object type: a key that is not in the object is added to it, somewhere. -/
structure ObjectType (K V : Type) where
  assign : K → V → List (K × V) → List (K × V)
  assign_new : ∀ (key : K) (value : V) (members : List (K × V)),
    key ∉ members.map Prod.fst → (assign key value members).Perm ((key, value) :: members)

/-- One that adds it behind the others. -/
structure OrderedType (K V : Type) where
  assign : K → V → List (K × V) → List (K × V)
  assign_new : ∀ (key : K) (value : V) (members : List (K × V)),
    key ∉ members.map Prod.fst → assign key value members = members ++ [(key, value)]

def ObjectType.byKey [DecidableEq K] [LT K] [DecidableLT K] : ObjectType K V where
  assign := assignSorted
  assign_new _ _ _ := assignSorted_perm

def OrderedType.byInsertion [DecidableEq K] : OrderedType K V where
  assign := assignLast
  assign_new _ _ _ := assignLast_eq

theorem OrderedType.assignAll_eq (object : OrderedType K V) {assignments : List (K × V)}
    (hnodup : (assignments.map Prod.fst).Nodup) :
    assignAll object.assign assignments = assignments := by
  induction assignments using List.reverseRecOn with
  | nil => rfl
  | append_singleton rest member ih =>
    obtain ⟨hrest, hnew⟩ := key_new hnodup
    rw [assignAll_concat, ih hrest, object.assign_new _ _ _ hnew]

theorem ObjectType.assignAll_perm (object : ObjectType K V) {assignments : List (K × V)}
    (hnodup : (assignments.map Prod.fst).Nodup) :
    (assignAll object.assign assignments).Perm assignments := by
  induction assignments using List.reverseRecOn with
  | nil => exact List.Perm.refl _
  | append_singleton rest member ih =>
    obtain ⟨hrest, hnew⟩ := key_new hnodup
    have hperm := ih hrest
    have hkey : member.1 ∉ (assignAll object.assign rest).map Prod.fst := by
      rw [(hperm.map Prod.fst).mem_iff]
      exact hnew
    rw [assignAll_concat]
    exact ((object.assign_new _ _ _ hkey).trans (hperm.cons member)).trans
      (List.perm_append_singleton member rest).symm

end Types

end ProtobufKafkaBench.KeyedMembers

import Mathlib.Data.List.Basic

/-!
The pieces of a list between the occurrences of a separator. No piece contains it,
and there is one piece more than there are separators.
-/
namespace ProtobufKafkaBench.Separators

variable {α : Type*} [DecidableEq α] {separator : α}

theorem splitOn_cons_self (rest : List α) :
    (separator :: rest).splitOn separator = [] :: rest.splitOn separator :=
  List.splitOn_append_cons_self_of_not_mem (List.not_mem_nil (a := separator)) rest

/-- Another element goes in front of the first piece. -/
theorem splitOn_cons_of_ne {first : α} (h : first ≠ separator) (rest : List α) :
    ∃ piece more, rest.splitOn separator = piece :: more ∧
      (first :: rest).splitOn separator = (first :: piece) :: more := by
  obtain ⟨piece, more, hpieces⟩ :=
    List.exists_cons_of_ne_nil (List.splitOn_ne_nil separator rest)
  refine ⟨piece, more, hpieces, ?_⟩
  rw [List.splitOn_cons_eq_if_modifyHead, if_neg (by simpa using h), hpieces,
    List.modifyHead_cons]

theorem not_mem_of_mem_splitOn {values piece : List α} (h : piece ∈ values.splitOn separator) :
    separator ∉ piece := by
  induction values generalizing piece with
  | nil =>
    rw [List.splitOn_nil, List.mem_singleton] at h
    rw [h]
    exact List.not_mem_nil
  | cons first rest ih =>
    by_cases hfirst : first = separator
    · rw [hfirst, splitOn_cons_self] at h
      obtain rfl | hrest := List.mem_cons.mp h
      · exact List.not_mem_nil
      · exact ih hrest
    · obtain ⟨start, more, hpieces, hsplit⟩ := splitOn_cons_of_ne hfirst rest
      rw [hsplit] at h
      obtain rfl | hmore := List.mem_cons.mp h
      · have hstart : start ∈ rest.splitOn separator := hpieces ▸ List.mem_cons_self
        exact List.not_mem_cons_of_ne_of_not_mem (Ne.symm hfirst) (ih hstart)
      · exact ih (hpieces ▸ List.mem_cons_of_mem start hmore)

theorem length_splitOn (values : List α) :
    (values.splitOn separator).length = values.count separator + 1 := by
  induction values with
  | nil => rfl
  | cons first rest ih =>
    by_cases hfirst : first = separator
    · rw [hfirst, splitOn_cons_self, List.length_cons, ih, List.count_cons_self]
    · obtain ⟨start, more, hpieces, hsplit⟩ := splitOn_cons_of_ne hfirst rest
      rw [hsplit, List.length_cons, List.count_cons_of_ne hfirst, ← ih, hpieces,
        List.length_cons]

end ProtobufKafkaBench.Separators

import ProtobufKafkaBench.Grouping
import Mathlib.Data.List.MinMax

/-!
The first of the least elements of a list. Selecting it from a part of the list, from
values that were computed of the elements, from the distinct elements in order of first
appearance, or one by one into a dictionary by a strict comparison, gives the same.
-/
namespace ProtobufKafkaBench.FirstMinimum

open Grouping

variable {α β κ : Type*} [LinearOrder β]

section Positions

variable [DecidableEq α]

/-- Of two elements that are kept, the one that comes first still does. -/
theorem idxOf_filter_le_iff {p : α → Bool} {a b : α} (ha : p a = true) (hb : p b = true)
    (l : List α) : (l.filter p).idxOf a ≤ (l.filter p).idxOf b ↔ l.idxOf a ≤ l.idxOf b := by
  induction l with
  | nil => simp
  | cons c rest ih =>
    by_cases hca : c = a
    · subst hca
      simp [List.filter_cons_of_pos ha, List.idxOf_cons_self]
    · by_cases hcb : c = b
      · subst hcb
        simp [List.filter_cons_of_pos hb, List.idxOf_cons_self, List.idxOf_cons_ne _ hca]
      · by_cases hc : p c = true
        · simpa [List.filter_cons_of_pos hc, List.idxOf_cons_ne _ hca,
            List.idxOf_cons_ne _ hcb] using ih
        · simpa [List.filter_cons_of_neg hc, List.idxOf_cons_ne _ hca,
            List.idxOf_cons_ne _ hcb] using ih

/-- Among the elements with a property, the one with the least value that comes first
in the whole list. -/
theorem argmin_filter_eq_some_iff {f : α → β} {p : α → Bool} {l : List α} {m : α} :
    (l.filter p).argmin f = some m ↔ (m ∈ l ∧ p m = true) ∧
      ∀ a ∈ l, p a = true → f m ≤ f a ∧ (f a = f m → l.idxOf m ≤ l.idxOf a) := by
  rw [List.argmin_eq_some_iff, List.mem_filter]
  constructor
  · intro h
    obtain ⟨hm, hle, hfirst⟩ := h
    refine ⟨hm, fun a ha hpa => ⟨hle a (List.mem_filter.mpr ⟨ha, hpa⟩), fun heq => ?_⟩⟩
    have hindex := hfirst a (List.mem_filter.mpr ⟨ha, hpa⟩) heq.le
    exact (idxOf_filter_le_iff hm.2 hpa l).mp hindex
  · intro h
    obtain ⟨hm, hleast⟩ := h
    refine ⟨hm, fun a ha => ?_, fun a ha hle => ?_⟩
    · obtain ⟨hal, hpa⟩ := List.mem_filter.mp ha
      exact (hleast a hal hpa).1
    · obtain ⟨hal, hpa⟩ := List.mem_filter.mp ha
      obtain ⟨hge, hfirst⟩ := hleast a hal hpa
      exact (idxOf_filter_le_iff hm.2 hpa l).mpr (hfirst (le_antisymm hle hge))

end Positions

section Selections

variable {f : α → β}

/-- An element that was there before changes nothing at the end. -/
theorem argmin_concat_of_mem {l : List α} {a : α} (h : a ∈ l) :
    (l ++ [a]).argmin f = l.argmin f := by
  rw [List.argmin_concat]
  cases hmin : l.argmin f with
  | none =>
    rw [List.argmin_eq_none.mp hmin] at h
    exact absurd h List.not_mem_nil
  | some m => exact if_neg (not_lt.mpr (List.le_of_mem_argmin h hmin))

/-- Values that are computed of the elements are compared as the elements are. -/
theorem map_argmin {g : α → κ} {h : κ → β} {l : List α} (hf : ∀ a ∈ l, f a = h (g a)) :
    (l.argmin f).map g = (l.map g).argmin h := by
  induction l using List.reverseRecOn with
  | nil => rfl
  | append_singleton rest a ih =>
    have hrest := ih fun b hb => hf b (List.mem_append_left _ hb)
    have ha := hf a (List.mem_append_right _ (List.mem_singleton.mpr rfl))
    rw [List.map_append, List.map_singleton, List.argmin_concat, List.argmin_concat, ← hrest]
    cases hmin : rest.argmin f with
    | none => rfl
    | some m =>
      have hm := hf m (List.mem_append_left _ (List.argmin_mem hmin))
      simp only [Option.map_some, ha, hm]
      by_cases hlt : h (g a) < h (g m)
      · rw [if_pos hlt, if_pos hlt, Option.map_some]
      · rw [if_neg hlt, if_neg hlt, Option.map_some]

theorem map_argmin_filter {g : α → κ} {h : κ → β} {l : List α} (hf : ∀ a ∈ l, f a = h (g a))
    (p : κ → Bool) :
    ((l.filter fun a => p (g a)).argmin f).map g = ((l.map g).filter p).argmin h := by
  rw [map_argmin fun a ha => hf a (List.mem_of_mem_filter ha), List.filter_map]
  rfl

variable [DecidableEq κ]

/-- The keys of groups stand for those of all rows. -/
theorem argmin_keys_groupRows {ρ : Type*} (key : ρ → κ) (h : κ → β) (p : κ → Bool)
    (rows : List ρ) : (((groupRows key rows).map Prod.fst).filter p).argmin h =
      ((rows.map key).filter p).argmin h := by
  induction rows using List.reverseRecOn with
  | nil => rfl
  | append_singleton rest row ih =>
    rw [groupRows_snoc, keys_addTo, List.map_append, List.map_singleton, List.filter_append]
    by_cases hp : p (key row) = true
    · simp only [List.filter_cons_of_pos hp, List.filter_nil]
      by_cases hold : key row ∈ (groupRows key rest).map Prod.fst
      · have hmem : key row ∈ (rest.map key).filter p :=
          List.mem_filter.mpr ⟨(mem_keys_groupRows key rest _).mp hold, hp⟩
        rw [if_pos hold, argmin_concat_of_mem hmem, ih]
      · simp only [if_neg hold, List.filter_append, List.filter_cons_of_pos hp, List.filter_nil,
          List.argmin_concat, ih]
    · simp only [List.filter_cons_of_neg hp, List.filter_nil, List.append_nil]
      by_cases hold : key row ∈ (groupRows key rest).map Prod.fst
      · simp only [if_pos hold, ih]
      · simp only [if_neg hold, List.filter_append, List.filter_cons_of_neg hp, List.filter_nil,
          List.append_nil, ih]

end Selections

section Dictionaries

variable [DecidableEq κ] [BEq κ]

/-- A step that enters the element under its key if there is none or a greater one. -/
def Improves (key : α → κ) (f : α → β) (step : List (κ × α) → α → List (κ × α)) : Prop :=
  ∀ entries a k, (step entries a).lookup k =
    if k = key a then
      match entries.lookup k with
      | none => some a
      | some old => if f a < f old then some a else some old
    else entries.lookup k

/-- After all steps each key has the first minimum of its elements. -/
theorem Improves.lookup_foldl {key : α → κ} {f : α → β}
    {step : List (κ × α) → α → List (κ × α)} (h : Improves key f step) (l : List α) (k : κ) :
    (l.foldl step []).lookup k = (l.filter fun a => key a = k).argmin f := by
  induction l using List.reverseRecOn with
  | nil => rfl
  | append_singleton rest a ih =>
    rw [List.foldl_concat, h, ih, List.filter_append]
    by_cases hk : k = key a
    · have hkept : [a].filter (fun b => key b = k) = [a] := by simp [hk]
      rw [if_pos hk, hkept, List.argmin_concat]
      cases (rest.filter fun b => key b = k).argmin f with
      | none => rfl
      | some old => rfl
    · have hdropped : [a].filter (fun b => key b = k) = [] := by simpa using Ne.symm hk
      rw [if_neg hk, hdropped, List.append_nil]

end Dictionaries

end ProtobufKafkaBench.FirstMinimum

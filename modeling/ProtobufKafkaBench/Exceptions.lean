import Mathlib.Data.List.Basic

/-!
Computations that may end in an exception: when a sequence of them, or one for
each element of a list, ends normally.
-/
namespace ProtobufKafkaBench.Exceptions

variable {α β ε : Type}

theorem bind_eq_ok {x : Except ε α} {f : α → Except ε β} {b : β} :
    x >>= f = .ok b ↔ ∃ a, x = .ok a ∧ f a = .ok b := by
  cases x <;> simp [bind, Except.bind]

theorem map_eq_ok {x : Except ε α} {f : α → β} {b : β} :
    x.map f = .ok b ↔ ∃ a, x = .ok a ∧ f a = b := by
  cases x <;> simp [Except.map]

/-- A check that raises ends normally when it does not hold. -/
theorem guard_eq_ok {p : Prop} [Decidable p] {error : ε} {x : Except ε α} {a : α} :
    (if p then .error error else x) = .ok a ↔ ¬ p ∧ x = .ok a := by
  by_cases hp : p <;> simp [hp]

/-- For results that are to be computed: exceptions need not be comparable. -/
theorem eq_ok_of_toOption {x : Except ε α} {a : α} (h : x.toOption = some a) : x = .ok a := by
  cases x with
  | error error => cases h
  | ok value => exact congrArg Except.ok (Option.some.inj h)

theorem exists_ok {x : Except ε α} (h : x.toOption.isSome = true) : ∃ a, x = .ok a := by
  obtain ⟨a, ha⟩ := Option.isSome_iff_exists.mp h
  exact ⟨a, eq_ok_of_toOption ha⟩

theorem mapM_eq_ok {f : α → Except ε β} {values : List α} {results : List β} :
    values.mapM f = .ok results ↔ values.map f = results.map Except.ok := by
  induction values generalizing results with
  | nil =>
    cases results <;> simp [pure, Except.pure]
  | cons value rest ih =>
    rw [List.mapM_cons, bind_eq_ok]
    constructor
    · intro h
      obtain ⟨result, hresult, hrest⟩ := h
      obtain ⟨more, hmore, heq⟩ := bind_eq_ok.mp hrest
      obtain rfl := Except.ok.inj heq
      rw [List.map_cons, List.map_cons, hresult, ih.mp hmore]
    · intro h
      cases results with
      | nil => simp at h
      | cons result more =>
        rw [List.map_cons, List.map_cons] at h
        obtain ⟨hresult, hmore⟩ := List.cons.inj h
        refine ⟨result, hresult, ?_⟩
        rw [ih.mpr hmore]
        rfl

theorem exists_value_of_mapM {f : α → Except ε β} {values : List α} {results : List β}
    (h : values.mapM f = .ok results) {result : β} (hresult : result ∈ results) :
    ∃ value ∈ values, f value = .ok result := by
  have hmem : Except.ok result ∈ values.map f := by
    rw [mapM_eq_ok.mp h]
    exact List.mem_map_of_mem hresult
  exact List.mem_map.mp hmem

theorem exists_result_of_mapM {f : α → Except ε β} {values : List α} {results : List β}
    (h : values.mapM f = .ok results) {value : α} (hvalue : value ∈ values) :
    ∃ result ∈ results, f value = .ok result := by
  have hmem : f value ∈ results.map Except.ok := by
    rw [← mapM_eq_ok.mp h]
    exact List.mem_map_of_mem hvalue
  obtain ⟨result, hresult, heq⟩ := List.mem_map.mp hmem
  exact ⟨result, hresult, heq.symm⟩

theorem mapM_ok {f : α → Except ε β} {g : α → β} {values : List α}
    (h : ∀ value ∈ values, f value = .ok (g value)) :
    values.mapM f = .ok (values.map g) := by
  rw [mapM_eq_ok, List.map_map]
  exact List.map_congr_left h

/-- A loop over values that can be computed each can be. -/
theorem exists_mapM_ok {f : α → Except ε β} {values : List α}
    (h : ∀ value ∈ values, ∃ result, f value = .ok result) :
    ∃ results, values.mapM f = .ok results := by
  induction values with
  | nil => exact ⟨[], rfl⟩
  | cons value rest ih =>
    obtain ⟨hvalue, hrest⟩ := List.forall_mem_cons.mp h
    obtain ⟨result, hresult⟩ := hvalue
    obtain ⟨results, hresults⟩ := ih hrest
    refine ⟨result :: results, mapM_eq_ok.mpr ?_⟩
    rw [List.map_cons, List.map_cons, hresult, mapM_eq_ok.mp hresults]

/-- The same where a missing value is the only failure. -/
theorem mapM_some {f : α → Option β} {g : α → β} {values : List α}
    (h : ∀ value ∈ values, f value = some (g value)) : values.mapM f = some (values.map g) := by
  induction values with
  | nil => rfl
  | cons value rest ih =>
    rw [List.mapM_cons, h value List.mem_cons_self,
      ih fun other hother => h other (List.mem_cons_of_mem value hother)]
    rfl

/-- What was read from the values is what a total reading gives for them. -/
theorem eq_map_of_mapM {f : α → Except ε β} {g : α → β}
    (hread : ∀ value result, f value = .ok result → g value = result) {values : List α}
    {results : List β} (h : values.mapM f = .ok results) : results = values.map g := by
  have hvalues : ∀ value ∈ values, f value = .ok (g value) := by
    intro value hvalue
    obtain ⟨result, -, hresult⟩ := exists_result_of_mapM h hvalue
    rw [hresult, hread value result hresult]
  exact Except.ok.inj (h.symm.trans (mapM_ok hvalues))

/-- Results that show something of the values they are of. -/
theorem map_eq_map_of_mapM {γ : Type} {f : α → Except ε β} {g : β → γ} {g' : α → γ}
    (hread : ∀ value result, f value = .ok result → g result = g' value) {values : List α}
    {results : List β} (h : values.mapM f = .ok results) : results.map g = values.map g' := by
  rw [mapM_eq_ok] at h
  induction values generalizing results with
  | nil =>
    rw [List.map_nil, eq_comm, List.map_eq_nil_iff] at h
    rw [h, List.map_nil, List.map_nil]
  | cons value rest ih =>
    cases results with
    | nil => cases h
    | cons result more =>
      rw [List.map_cons, List.map_cons] at h
      obtain ⟨hresult, hmore⟩ := List.cons.inj h
      rw [List.map_cons, List.map_cons, hread value result hresult, ih hmore]

/-- A loop that reads each value first and then cannot fail. -/
theorem foldlM_eq_ok {γ : Type} {f : α → Except ε β} {step : γ → β → γ} {values : List α}
    {start result : γ}
    (h : values.foldlM (fun state value => do return step state (← f value)) start = .ok result) :
    ∃ results, values.mapM f = .ok results ∧ results.foldl step start = result := by
  induction values generalizing start with
  | nil => exact ⟨[], rfl, Except.ok.inj h⟩
  | cons value rest ih =>
    rw [List.foldlM_cons, bind_eq_ok] at h
    obtain ⟨next, hnext, hrest⟩ := h
    obtain ⟨first, hfirst, heq⟩ := bind_eq_ok.mp hnext
    obtain rfl := Except.ok.inj heq
    obtain ⟨results, hresults, hfold⟩ := ih hrest
    refine ⟨first :: results, mapM_eq_ok.mpr ?_, hfold⟩
    rw [List.map_cons, List.map_cons, hfirst, mapM_eq_ok.mp hresults]

/-- What is kept of all results are the results of the values that are kept. -/
theorem filter_flatten_of_mapM {f : α → Except ε (List β)} {kept : β → Bool} {p : α → Bool}
    (hkept : ∀ value result, f value = .ok result → ∀ b ∈ result, kept b = p value)
    {values : List α} {results : List (List β)} (h : values.mapM f = .ok results) :
    ∃ chosen, (values.filter p).mapM f = .ok chosen ∧
      results.flatten.filter kept = chosen.flatten := by
  rw [mapM_eq_ok] at h
  induction values generalizing results with
  | nil =>
    rw [List.map_nil, eq_comm, List.map_eq_nil_iff] at h
    exact ⟨[], rfl, by rw [h]; rfl⟩
  | cons value rest ih =>
    cases results with
    | nil => cases h
    | cons result more =>
      obtain ⟨hresult, hmore⟩ := List.cons.inj h
      obtain ⟨others, hothers, hflat⟩ := ih hmore
      have hall := hkept value result hresult
      by_cases hp : p value = true
      · have hsame : result.filter kept = result :=
          List.filter_eq_self.mpr fun b hb => (hall b hb).trans hp
        refine ⟨result :: others, ?_, ?_⟩
        · rw [List.filter_cons_of_pos hp, mapM_eq_ok, List.map_cons, List.map_cons, hresult,
            mapM_eq_ok.mp hothers]
        · rw [List.flatten_cons, List.filter_append, hsame, hflat, List.flatten_cons]
      · have hnone : result.filter kept = [] :=
          List.filter_eq_nil_iff.mpr fun b hb hb' => hp ((hall b hb).symm.trans hb')
        refine ⟨others, ?_, ?_⟩
        · rw [List.filter_cons_of_neg hp, hothers]
        · rw [List.flatten_cons, List.filter_append, hnone, hflat, List.nil_append]

theorem forM_eq_ok {f : α → Except ε Unit} {values : List α} :
    values.forM f = .ok () ↔ ∀ value ∈ values, f value = .ok () := by
  induction values with
  | nil => simp [pure, Except.pure]
  | cons value rest ih =>
    rw [List.forM_eq_forM] at ih ⊢
    rw [List.forM_cons, bind_eq_ok]
    constructor
    · rintro ⟨⟨⟩, hvalue, hrest⟩ v hv
      rcases List.mem_cons.mp hv with rfl | hv
      · exact hvalue
      · exact ih.mp hrest v hv
    · intro h
      exact ⟨(), h value List.mem_cons_self, ih.mpr fun v hv => h v (List.mem_cons_of_mem _ hv)⟩

/-- A loop whose steps end normally or not whatever the state is. -/
theorem exists_foldlM_ok_iff {step : α → β → Except ε α} {Accepted : β → Prop}
    (hstep : ∀ state value, (∃ next, step state value = .ok next) ↔ Accepted value)
    {values : List β} {state : α} :
    (∃ result, values.foldlM step state = .ok result) ↔ ∀ value ∈ values, Accepted value := by
  induction values generalizing state with
  | nil =>
    constructor
    · intro _ value hvalue
      cases hvalue
    · intro _
      exact ⟨state, rfl⟩
  | cons value rest ih =>
    rw [List.forall_mem_cons, ← hstep state value]
    constructor
    · intro h
      obtain ⟨result, hresult⟩ := h
      rw [List.foldlM_cons] at hresult
      obtain ⟨next, hnext, hrest⟩ := bind_eq_ok.mp hresult
      exact ⟨⟨next, hnext⟩, ih.mp ⟨result, hrest⟩⟩
    · intro h
      obtain ⟨⟨next, hnext⟩, hrest⟩ := h
      obtain ⟨result, hresult⟩ := ih.mpr hrest
      refine ⟨result, ?_⟩
      rw [List.foldlM_cons]
      exact bind_eq_ok.mpr ⟨next, hnext, hresult⟩

end ProtobufKafkaBench.Exceptions

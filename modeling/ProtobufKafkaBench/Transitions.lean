import Mathlib.Data.List.Basic

/-!
Finite runs of labelled transition systems, with their history. A run records
each transition as the state it left and its label, so that a property of a
schedule can be stated on the recorded list. Invariants may mention the
history; a step-by-step simulation carries a run of one system to another.
-/
namespace ProtobufKafkaBench.Transitions

variable {σ τ ℓ κ : Type*}

/-- A finite run from `start`, with its transitions in the order they happened. -/
inductive Run (step : σ → ℓ → σ → Prop) (start : σ) : List (σ × ℓ) → σ → Prop
  | nil : Run step start [] start
  | snoc {history : List (σ × ℓ)} {s t : σ} {label : ℓ} :
      Run step start history s → step s label t →
      Run step start (history ++ [(s, label)]) t

def labels (history : List (σ × ℓ)) : List ℓ := history.map Prod.snd

@[simp] theorem labels_nil : labels ([] : List (σ × ℓ)) = [] := rfl

@[simp] theorem labels_cons (history : List (σ × ℓ)) (s : σ) (label : ℓ) :
    labels ((s, label) :: history) = label :: labels history := rfl

@[simp] theorem labels_append (first second : List (σ × ℓ)) :
    labels (first ++ second) = labels first ++ labels second := by
  simp [labels]

variable {step : σ → ℓ → σ → Prop} {start : σ}

/-- A property of history and state that each step preserves holds of every run. -/
theorem Run.invariant (holds : List (σ × ℓ) → σ → Prop) (hinit : holds [] start)
    (hstep : ∀ history s label t, Run step start history s → holds history s →
      step s label t → holds (history ++ [(s, label)]) t)
    {history : List (σ × ℓ)} {s : σ} (run : Run step start history s) :
    holds history s := by
  induction run with
  | nil => exact hinit
  | snoc run hs ih => exact hstep _ _ _ _ run ih hs

theorem Run.mono {step' : σ → ℓ → σ → Prop} {history : List (σ × ℓ)} {s : σ}
    (run : Run step start history s) (h : ∀ s label t, step s label t → step' s label t) :
    Run step' start history s := by
  induction run with
  | nil => exact .nil
  | snoc _ hstep ih => exact ih.snoc (h _ _ _ hstep)

theorem Run.append {first second : List (σ × ℓ)} {s t : σ}
    (run : Run step start first s) (rest : Run step s second t) :
    Run step start (first ++ second) t := by
  induction rest with
  | nil => simpa using run
  | snoc _ hs ih =>
    rw [← List.append_assoc]
    exact Run.snoc ih hs

/-- A recorded transition was taken at the end of its own prefix of the run. -/
theorem Run.split {history : List (σ × ℓ)} {t : σ} (run : Run step start history t) :
    ∀ (before after : List (σ × ℓ)) (s : σ) (label : ℓ),
      history = before ++ (s, label) :: after →
      Run step start before s ∧ ∃ u, step s label u := by
  induction run with
  | nil =>
    intro before after s label heq
    simp at heq
  | @snoc history s' t label' run hs ih =>
    intro before after s label heq
    rcases List.eq_nil_or_concat after with rfl | ⟨rest, last, rfl⟩
    · obtain ⟨hhistory, hlast⟩ := List.append_inj' heq rfl
      obtain ⟨rfl, rfl⟩ := Prod.mk.inj (List.singleton_inj.mp hlast)
      subst hhistory
      exact ⟨run, t, hs⟩
    · rw [List.concat_eq_append, ← List.cons_append, ← List.append_assoc] at heq
      exact ih before rest s label (List.append_inj' heq rfl).1

/-- The same, found from the position of a label alone. -/
theorem Run.split_labels {history : List (σ × ℓ)} {t : σ} (run : Run step start history t)
    {before after : List ℓ} {label : ℓ} (h : labels history = before ++ label :: after) :
    ∃ earlier s u, labels earlier = before ∧ Run step start earlier s ∧ step s label u := by
  obtain ⟨earlier, rest, rfl, hbefore, hrest⟩ := List.map_eq_append_iff.mp h
  obtain ⟨⟨s, label'⟩, later, rfl, hlabel, -⟩ := List.map_eq_cons_iff.mp hrest
  have hlabel' : label' = label := hlabel
  subst hlabel'
  obtain ⟨hrun, u, hs⟩ := run.split earlier later s label' rfl
  exact ⟨earlier, s, u, hbefore, hrun, hs⟩

/-- Taking one more step or none, as the view of a label says. -/
def StepsOrStays (step : τ → κ → τ → Prop) (label : Option κ) (a b : τ) : Prop :=
  match label with
  | none => a = b
  | some event => step a event b

/-- The labels that a view lets through, in order. -/
def visible (view : ℓ → Option κ) (history : List (σ × ℓ)) : List κ :=
  (labels history).filterMap view

@[simp] theorem visible_nil (view : ℓ → Option κ) :
    visible view ([] : List (σ × ℓ)) = [] := rfl

theorem visible_snoc (view : ℓ → Option κ) (history : List (σ × ℓ)) (s : σ) (label : ℓ) :
    visible view (history ++ [(s, label)]) =
      visible view history ++ (view label).toList := by
  cases h : view label <;> simp [visible, h]

/-- A simulation maps every run to a run of the simulating system whose labels
are exactly the visible labels of the first, and relates the states reached. -/
theorem Run.simulate {abstractStep : τ → κ → τ → Prop} {abstractStart : τ}
    (related : σ → τ → Prop) (view : ℓ → Option κ)
    (hinit : related start abstractStart)
    (hstep : ∀ history s label t a, Run step start history s → related s a →
      step s label t → ∃ b, StepsOrStays abstractStep (view label) a b ∧ related t b)
    {history : List (σ × ℓ)} {s : σ} (run : Run step start history s) :
    ∃ abstractHistory a, Run abstractStep abstractStart abstractHistory a ∧
      labels abstractHistory = visible view history ∧ related s a := by
  induction run with
  | nil => exact ⟨[], abstractStart, Run.nil, rfl, hinit⟩
  | @snoc history s t label run hs ih =>
    obtain ⟨abstractHistory, a, hrun, hlabels, hrel⟩ := ih
    obtain ⟨b, hab, htb⟩ := hstep history s label t a run hrel hs
    cases hview : view label with
    | none =>
      rw [hview] at hab
      have heq : a = b := hab
      subst heq
      refine ⟨abstractHistory, a, hrun, ?_, htb⟩
      rw [visible_snoc, hview, hlabels]
      simp
    | some event =>
      rw [hview] at hab
      refine ⟨abstractHistory ++ [(a, event)], b, Run.snoc hrun hab, ?_, htb⟩
      rw [visible_snoc, hview, labels_append, hlabels]
      rfl

end ProtobufKafkaBench.Transitions

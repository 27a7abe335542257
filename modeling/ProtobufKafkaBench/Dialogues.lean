import ProtobufKafkaBench.CountedLoops

/-!
Sequential programs that talk to an environment they know nothing about. A program
performs operations; what an operation answers is up to the environment, and the rest of
the program may depend on it. `Plays` gives the meaning of a program: the events so far,
and whether it is still running, has returned, or has failed. `wp` turns a condition on
these into one on the program, with a rule for each way of putting programs together. Then come
programs that carry out a list of orders, each by a program of its own, and last what a
program does against an environment with fixed answers.
-/
namespace ProtobufKafkaBench.Dialogues

open CountedLoops

/-- A program with operations `Op`, errors `ε` and results `α`. `cut` stands for a
program of which no more is looked at. -/
inductive Dialogue (Op : Type) (Answer : Op → Type) (ε α : Type) : Type
  | done (value : α)
  | throw (error : ε)
  | perform (op : Op) (next : Answer op → Dialogue Op Answer ε α)
  | cut

/-- An operation with its answer. -/
abbrev Event {Op : Type} (Answer : Op → Type) := (op : Op) × Answer op

inductive Outcome (ε α : Type)
  | running
  | returned (value : α)
  | failed (error : ε)

variable {Op : Type} {Answer : Op → Type} {ε α β σ : Type}

section Programs

namespace Dialogue

def bind : Dialogue Op Answer ε α → (α → Dialogue Op Answer ε β) → Dialogue Op Answer ε β
  | done value, f => f value
  | throw error, _ => throw error
  | perform op next, f => perform op fun answer => (next answer).bind f
  | cut, _ => cut

instance : Monad (Dialogue Op Answer ε) where
  pure := done
  bind := bind

/-- An operation whose answer is the result. -/
def ask (op : Op) : Dialogue Op Answer ε (Answer op) := perform op done

/-- Every error becomes a result. -/
def attempt : Dialogue Op Answer ε α → Dialogue Op Answer ε (Except ε α)
  | done value => done (.ok value)
  | throw error => done (.error error)
  | perform op next => perform op fun answer => (next answer).attempt
  | cut => cut

/-- A computation without operations. -/
def ofExcept : Except ε α → Dialogue Op Answer ε α
  | .ok value => done value
  | .error error => throw error

/-- `for (; i <= bound; ++i)`, cut off after `fuel` rounds. -/
def repeatUpTo {w : ℕ} (body : BitVec w → σ → Dialogue Op Answer ε σ) (bound : BitVec w) :
    ℕ → BitVec w → σ → Dialogue Op Answer ε σ
  | 0, _, _ => cut
  | fuel + 1, i, s =>
    if i ≤ bound then (body i s).bind (repeatUpTo body bound fuel (i + 1)) else done s

end Dialogue

open Dialogue

/-- The events of a program up to some moment, and how it stands then. -/
inductive Plays : Dialogue Op Answer ε α → List (Event Answer) → Outcome ε α → Prop
  | done (value : α) : Plays (done value) [] (.returned value)
  | throw (error : ε) : Plays (throw error) [] (.failed error)
  | cut : Plays cut [] .running
  | wait (op : Op) (next : Answer op → Dialogue Op Answer ε α) :
      Plays (perform op next) [] .running
  | perform {op : Op} {next : Answer op → Dialogue Op Answer ε α} {answer : Answer op}
      {trace : List (Event Answer)} {outcome : Outcome ε α} :
      Plays (next answer) trace outcome →
      Plays (perform op next) (⟨op, answer⟩ :: trace) outcome

end Programs

section Conditions

/-- A condition on what has happened and on how the program stands. -/
abbrev Condition (Answer : Op → Type) (ε α : Type) :=
  List (Event Answer) → Outcome ε α → Prop

namespace Dialogue

/-- The condition holds at every moment of the program, whatever the environment answers. -/
def wp : Dialogue Op Answer ε α → Condition Answer ε α → Prop
  | done value, post => post [] (.returned value)
  | throw error, post => post [] (.failed error)
  | perform op next, post =>
    post [] .running ∧
      ∀ answer, (next answer).wp fun trace outcome => post (⟨op, answer⟩ :: trace) outcome
  | cut, post => post [] .running

end Dialogue

open Dialogue

variable {program : Dialogue Op Answer ε α} {post post' : Condition Answer ε α}

theorem wp_iff_plays : program.wp post ↔
    ∀ trace outcome, Plays program trace outcome → post trace outcome := by
  induction program generalizing post with
  | done value =>
    refine ⟨fun h trace outcome hplay => ?_, fun h => h _ _ (.done value)⟩
    cases hplay
    exact h
  | throw error =>
    refine ⟨fun h trace outcome hplay => ?_, fun h => h _ _ (.throw error)⟩
    cases hplay
    exact h
  | perform op next ih =>
    constructor
    · intro h trace outcome hplay
      cases hplay with
      | wait => exact h.1
      | perform hrest => exact (ih _).mp (h.2 _) _ _ hrest
    · intro h
      refine ⟨h _ _ (.wait op next), fun answer => (ih answer).mpr fun trace outcome hrest => ?_⟩
      exact h _ _ (.perform hrest)
  | cut =>
    refine ⟨fun h trace outcome hplay => ?_, fun h => h _ _ .cut⟩
    cases hplay
    exact h

theorem wp_mono (h : program.wp post)
    (himp : ∀ trace outcome, post trace outcome → post' trace outcome) : program.wp post' := by
  rw [wp_iff_plays] at h ⊢
  exact fun trace outcome hplay => himp trace outcome (h trace outcome hplay)

/-- What is to hold of a program if `f` goes on with its result. -/
def andThen (f : α → Dialogue Op Answer ε β) (post : Condition Answer ε β) :
    Condition Answer ε α
  | trace, .returned value => (f value).wp fun rest outcome => post (trace ++ rest) outcome
  | trace, .failed error => post trace (.failed error)
  | trace, .running => post trace .running

theorem wp_bind {f : α → Dialogue Op Answer ε β} {post : Condition Answer ε β} :
    (program.bind f).wp post ↔ program.wp (andThen f post) := by
  induction program generalizing post with
  | done value => rfl
  | throw error => rfl
  | cut => rfl
  | perform op next ih =>
    refine and_congr Iff.rfl (forall_congr' fun answer => (ih answer).trans ?_)
    refine ⟨fun h => wp_mono h ?_, fun h => wp_mono h ?_⟩ <;>
    · intro trace outcome hpost
      cases outcome <;> exact hpost

@[simp] theorem wp_pure {value : α} {post : Condition Answer ε α} :
    (pure value : Dialogue Op Answer ε α).wp post ↔ post [] (.returned value) := Iff.rfl

@[simp] theorem wp_throw {error : ε} {post : Condition Answer ε α} :
    (throw error : Dialogue Op Answer ε α).wp post ↔ post [] (.failed error) := Iff.rfl

@[simp] theorem wp_ask {op : Op} {f : Answer op → Dialogue Op Answer ε α}
    {post : Condition Answer ε α} : (ask op >>= f).wp post ↔
      post [] .running ∧
        ∀ answer, (f answer).wp fun rest outcome => post (⟨op, answer⟩ :: rest) outcome :=
  Iff.rfl

/-- What is to hold of a program whose errors are results. -/
def orElse (post : Condition Answer ε (Except ε α)) : Condition Answer ε α
  | trace, .returned value => post trace (.returned (.ok value))
  | trace, .failed error => post trace (.returned (.error error))
  | trace, .running => post trace .running

theorem wp_attempt {post : Condition Answer ε (Except ε α)} :
    program.attempt.wp post ↔ program.wp (orElse post) := by
  induction program generalizing post with
  | done value => rfl
  | throw error => rfl
  | cut => rfl
  | perform op next ih =>
    refine and_congr Iff.rfl (forall_congr' fun answer => (ih answer).trans ?_)
    refine ⟨fun h => wp_mono h ?_, fun h => wp_mono h ?_⟩ <;>
    · intro trace outcome hpost
      cases outcome <;> exact hpost

/-- What a round hands on to the next one: `holds` after `k + 1` rounds. -/
def afterRound (holds : ℕ → σ → List (Event Answer) → Prop) (post : Condition Answer ε σ)
    (k : ℕ) (trace : List (Event Answer)) : Condition Answer ε σ
  | rest, .returned s => holds (k + 1) s (trace ++ rest)
  | rest, .failed error => post (trace ++ rest) (.failed error)
  | rest, .running => post (trace ++ rest) .running

/-- A loop up to a bound that is not the largest counter: what holds at first and is kept by
every round holds after the last one. -/
theorem wp_repeatUpTo {w : ℕ} {body : BitVec w → σ → Dialogue Op Answer ε σ} {bound : BitVec w}
    {post : Condition Answer ε σ} (holds : ℕ → σ → List (Event Answer) → Prop)
    (hbound : bound ≠ BitVec.allOnes w)
    (hround : ∀ k i s trace, i.toNat = k + 1 → k < bound.toNat → holds k s trace →
      (body i s).wp (afterRound holds post k trace))
    (hrunning : ∀ k s trace, k ≤ bound.toNat → holds k s trace → post trace .running)
    (hend : ∀ s trace, holds bound.toNat s trace → post trace (.returned s))
    {fuel k : ℕ} {i : BitVec w} {s : σ} {trace : List (Event Answer)} (hi : i.toNat = k + 1)
    (hk : k ≤ bound.toNat) (h : holds k s trace) :
    (repeatUpTo body bound fuel i s).wp fun rest outcome => post (trace ++ rest) outcome := by
  have hlast := succ_lt_of_ne_allOnes hbound
  induction fuel generalizing k i s trace with
  | zero =>
    change post (trace ++ []) .running
    rw [List.append_nil]
    exact hrunning k s trace hk h
  | succ fuel ih =>
    rw [repeatUpTo]
    by_cases hle : i ≤ bound
    · rw [if_pos hle, wp_bind]
      have hlt := BitVec.le_def.mp hle
      refine wp_mono (hround k i s trace hi (by omega) h) fun rest outcome hrest => ?_
      cases outcome with
      | running => exact hrest
      | failed error => exact hrest
      | returned s' =>
        have hnext := ih (i := i + 1) (by rw [toNat_succ (by omega)]; omega)
          (show k + 1 ≤ bound.toNat by omega) hrest
        simp only [List.append_assoc] at hnext
        exact hnext
    · rw [if_neg hle]
      have hlast : k = bound.toNat := by
        rw [BitVec.le_def] at hle
        omega
      subst hlast
      change post (trace ++ []) (.returned s)
      rw [List.append_nil]
      exact hend s trace h

end Conditions

section Orders

variable {ι : Type} {act : ι → Dialogue Op Answer ε Unit} {order : ι} {orders first second : List ι}
  {trace rest : List (Event Answer)} {error : ε}

/-- The orders have been carried out one after the other, up to some moment. -/
inductive Follows (act : ι → Dialogue Op Answer ε Unit) : List ι → Condition Answer ε α
  | finished (value : α) : Follows act [] [] (.returned value)
  | paused (orders : List ι) : Follows act orders [] .running
  | begun {order : ι} {orders : List ι} {trace : List (Event Answer)} :
      Plays (act order) trace .running → Follows act (order :: orders) trace .running
  | broken {order : ι} {orders : List ι} {trace : List (Event Answer)} {error : ε} :
      Plays (act order) trace (.failed error) → Follows act (order :: orders) trace (.failed error)
  | next {order : ι} {orders : List ι} {trace rest : List (Event Answer)}
      {outcome : Outcome ε α} : Plays (act order) trace (.returned ()) →
      Follows act orders rest outcome → Follows act (order :: orders) (trace ++ rest) outcome

theorem Follows.append_returned {value : α} {outcome : Outcome ε β}
    (h : Follows act first trace (.returned value)) (hrest : Follows act second rest outcome) :
    Follows act (first ++ second) (trace ++ rest) outcome := by
  induction first generalizing trace with
  | nil =>
    cases h
    exact hrest
  | cons order first ih =>
    cases h with
    | next hplay hfollows =>
      rw [List.append_assoc]
      exact .next hplay (ih hfollows)

theorem Follows.append_failed (second : List ι)
    (h : Follows act first trace (.failed error : Outcome ε α)) :
    Follows act (first ++ second) trace (.failed error : Outcome ε β) := by
  induction first generalizing trace with
  | nil => cases h
  | cons order first ih =>
    cases h with
    | broken hplay => exact .broken hplay
    | next hplay hfollows => exact .next hplay (ih hfollows)

theorem Follows.append_running (second : List ι)
    (h : Follows act first trace (.running : Outcome ε α)) :
    Follows act (first ++ second) trace (.running : Outcome ε β) := by
  induction first generalizing trace with
  | nil =>
    cases h
    exact .paused second
  | cons order first ih =>
    cases h with
    | paused => exact .paused _
    | begun hplay => exact .begun hplay
    | next hplay hfollows => exact .next hplay (ih hfollows)

open Dialogue

theorem wp_act (act : ι → Dialogue Op Answer ε Unit) (order : ι) :
    (act order).wp (Follows act [order]) := by
  rw [wp_iff_plays]
  intro trace outcome hplay
  cases outcome with
  | running => exact .begun hplay
  | failed error => exact .broken hplay
  | returned value =>
    rw [← List.append_nil trace]
    exact .next hplay (.finished value)

/-- Orders of a program, and then orders of the program that goes on with its result. -/
theorem wp_bind_follows {program : Dialogue Op Answer ε α} {f : α → Dialogue Op Answer ε β}
    (h : program.wp (Follows act first)) (hnext : ∀ value, (f value).wp (Follows act second)) :
    (program.bind f).wp (Follows act (first ++ second)) := by
  rw [wp_bind]
  refine wp_mono h fun trace outcome hfollows => ?_
  cases outcome with
  | running => exact hfollows.append_running second
  | failed error => exact hfollows.append_failed second
  | returned value =>
    exact wp_mono (hnext value) fun rest outcome hrest => hfollows.append_returned hrest

/-- A program with a result carries out an order if it does so without its result. -/
theorem wp_result (program : Dialogue Op Answer ε α)
    (h : act order = program.bind fun _ => done ()) : program.wp (Follows act [order]) := by
  have hact : (act order).wp (Follows act [order]) := wp_act act order
  rw [h, wp_bind] at hact
  refine wp_mono hact fun trace outcome hfollows => ?_
  cases outcome with
  | running => exact Follows.append_running [] hfollows
  | failed error => exact Follows.append_failed [] hfollows
  | returned value =>
    have hreturned : Follows act [order] (trace ++ []) (.returned ()) := hfollows
    have hvalue := hreturned.append_returned (.finished value)
    rwa [List.append_nil, List.append_nil, List.append_nil] at hvalue

/-- The orders of a loop are those of its rounds. -/
theorem wp_repeatUpTo_follows {w : ℕ} {body : BitVec w → σ → Dialogue Op Answer ε σ}
    {bound : BitVec w} (orders : ℕ → List ι) (hbound : bound ≠ BitVec.allOnes w)
    (hround : ∀ i : BitVec w, 1 ≤ i.toNat → ∀ s, (body i s).wp (Follows act (orders i.toNat)))
    (fuel : ℕ) {i : BitVec w} (hi : i.toNat = 1) {s : σ} :
    (repeatUpTo body bound fuel i s).wp
      (Follows act ((List.range' 1 bound.toNat).flatMap orders)) := by
  have hsplit : ∀ k ≤ bound.toNat, (List.range' 1 bound.toNat).flatMap orders =
      (List.range' 1 k).flatMap orders ++
        (List.range' (k + 1) (bound.toNat - k)).flatMap orders := by
    intro k hk
    rw [← List.flatMap_append, ← Nat.add_comm 1 k, List.range'_append_1, Nat.add_sub_cancel' hk]
  have hsucc : ∀ k, (List.range' 1 (k + 1)).flatMap orders =
      (List.range' 1 k).flatMap orders ++ orders (k + 1) := by
    intro k
    rw [List.range'_concat, List.flatMap_append, one_mul, add_comm 1 k]
    simp
  let done : ℕ → σ → List (Event Answer) → Prop := fun k s trace =>
    Follows act ((List.range' 1 k).flatMap orders) trace (.returned s : Outcome ε σ)
  have hstart : done 0 s [] := .finished s
  let post : Condition Answer ε σ := Follows act ((List.range' 1 bound.toNat).flatMap orders)
  change (repeatUpTo body bound fuel i s).wp fun rest outcome => post ([] ++ rest) outcome
  refine wp_repeatUpTo done hbound ?_ ?_ (fun _ _ h => h) hi (Nat.zero_le _) hstart
  · intro k i s trace hi hk hdone
    refine wp_mono (hround i (by omega) s) fun rest outcome hrest => ?_
    rw [hi] at hrest
    cases outcome with
    | returned s' =>
      change Follows act ((List.range' 1 (k + 1)).flatMap orders) (trace ++ rest) _
      rw [hsucc]
      exact hdone.append_returned hrest
    | running =>
      change Follows act ((List.range' 1 bound.toNat).flatMap orders) (trace ++ rest) _
      rw [hsplit (k + 1) hk, hsucc]
      exact (hdone.append_returned hrest).append_running _
    | failed error =>
      change Follows act ((List.range' 1 bound.toNat).flatMap orders) (trace ++ rest) _
      rw [hsplit (k + 1) hk, hsucc]
      exact (hdone.append_returned hrest).append_failed _
  · intro k s trace hk hdone
    rw [hsplit k hk]
    have hpaused := hdone.append_returned (.paused (α := σ)
      ((List.range' (k + 1) (bound.toNat - k)).flatMap orders))
    rwa [List.append_nil] at hpaused

/-- A loop each of whose rounds is one order. -/
theorem wp_repeatUpTo_order {w : ℕ} (act : ι → Dialogue Op Answer ε Unit)
    {body : BitVec w → Dialogue Op Answer ε Unit}
    {bound : BitVec w} (order : ℕ → ι) (hbody : ∀ i, body i = act (order i.toNat))
    (hbound : bound ≠ BitVec.allOnes w) (fuel : ℕ) {i : BitVec w} (hi : i.toNat = 1) :
    (repeatUpTo (fun i _ => body i) bound fuel i ()).wp
      (Follows act ((List.range' 1 bound.toNat).map order)) := by
  rw [List.map_eq_flatMap]
  refine wp_repeatUpTo_follows _ hbound (fun i _ _ => ?_) fuel hi
  rw [hbody]
  exact wp_act act _

end Orders

section Events

variable {ι κ : Type} {act : ι → Dialogue Op Answer ε Unit} {orders : List ι}
  {trace : List (Event Answer)} {error : ε} {outcome : Outcome ε α}

open Dialogue

/-- What a view lets through is the beginning of what was planned, and all of it in the end. -/
def Shows (view : Event Answer → Option κ) (planned : List κ) : Condition Answer ε α
  | trace, .returned _ => trace.filterMap view = planned
  | trace, .failed _ => trace.filterMap view <+: planned
  | trace, .running => trace.filterMap view <+: planned

theorem Shows.isPrefix {view : Event Answer → Option κ} {planned : List κ}
    (h : Shows view planned trace outcome) : trace.filterMap view <+: planned := by
  cases outcome with
  | returned value =>
    have heq : trace.filterMap view = planned := h
    rw [heq]
  | failed error => exact h
  | running => exact h

/-- The plan of the whole is made of the plans of the orders. -/
theorem Follows.shows {view : Event Answer → Option κ} {planned : ι → List κ}
    (hacts : ∀ order ∈ orders, (act order).wp (Shows view (planned order)))
    (h : Follows act orders trace outcome) :
    Shows view (orders.flatMap planned) trace outcome := by
  induction h with
  | finished value => rfl
  | paused orders => exact List.nil_prefix
  | begun hplay =>
    have hact := wp_iff_plays.mp (hacts _ List.mem_cons_self) _ _ hplay
    exact hact.isPrefix.trans (List.prefix_append _ _)
  | broken hplay =>
    have hact := wp_iff_plays.mp (hacts _ List.mem_cons_self) _ _ hplay
    exact hact.isPrefix.trans (List.prefix_append _ _)
  | @next order orders trace rest outcome hplay hfollows ih =>
    have hact : trace.filterMap view = planned order :=
      wp_iff_plays.mp (hacts _ List.mem_cons_self) _ _ hplay
    have hrest := ih fun order hmem => hacts order (List.mem_cons_of_mem _ hmem)
    rw [List.flatMap_cons, ← hact]
    cases outcome with
    | returned value =>
      have heq : rest.filterMap view = orders.flatMap planned := hrest
      change (trace ++ rest).filterMap view = _
      rw [List.filterMap_append, heq]
    | failed error =>
      change (trace ++ rest).filterMap view <+: _
      rw [List.filterMap_append]
      exact (List.prefix_append_right_inj _).mpr hrest
    | running =>
      change (trace ++ rest).filterMap view <+: _
      rw [List.filterMap_append]
      exact (List.prefix_append_right_inj _).mpr hrest

/-- Every event is right after what came before it. -/
def Justified (right : List (Event Answer) → Event Answer → Prop)
    (trace : List (Event Answer)) : Prop :=
  ∀ before event after, trace = before ++ event :: after → right before event

theorem justified_snoc {right : List (Event Answer) → Event Answer → Prop}
    (trace : List (Event Answer)) {event : Event Answer} (h : Justified right trace)
    (hevent : right trace event) : Justified right (trace ++ [event]) := by
  intro before other after heq
  rcases List.eq_nil_or_concat after with rfl | ⟨rest, last, rfl⟩
  · obtain ⟨rfl, hsame⟩ := List.append_inj' heq rfl
    obtain rfl := List.singleton_inj.mp hsame
    exact hevent
  · rw [List.concat_eq_append, ← List.cons_append, ← List.append_assoc] at heq
    exact h before other rest (List.append_inj' heq rfl).1

theorem justified_append {right : List (Event Answer) → Event Answer → Prop}
    (hearlier : ∀ earlier before event, right before event → right (earlier ++ before) event)
    {first second : List (Event Answer)} (hfirst : Justified right first)
    (hsecond : Justified right second) : Justified right (first ++ second) := by
  intro before event after heq
  rcases List.append_eq_append_iff.mp heq with ⟨rest, rfl, hrest⟩ | ⟨rest, hrest, hafter⟩
  · exact hearlier first rest event (hsecond rest event after hrest)
  · cases rest with
    | nil =>
      rw [List.append_nil] at hrest
      have h := hsecond [] event after (by simpa using hafter.symm)
      rw [← hrest, ← List.append_nil first]
      exact hearlier first [] event h
    | cons head rest =>
      obtain ⟨rfl, rfl⟩ := List.cons.inj hafter
      exact hfirst before event rest hrest

theorem Follows.justified {right : List (Event Answer) → Event Answer → Prop}
    (hearlier : ∀ earlier before event, right before event → right (earlier ++ before) event)
    (hacts : ∀ order ∈ orders, (act order).wp fun trace _ => Justified right trace)
    (h : Follows act orders trace outcome) : Justified right trace := by
  have hnil : Justified right [] := fun before event after heq => by simp at heq
  induction h with
  | finished | paused => exact hnil
  | begun hplay => exact wp_iff_plays.mp (hacts _ List.mem_cons_self) _ _ hplay
  | broken hplay => exact wp_iff_plays.mp (hacts _ List.mem_cons_self) _ _ hplay
  | next hplay hfollows ih =>
    exact justified_append hearlier (wp_iff_plays.mp (hacts _ List.mem_cons_self) _ _ hplay)
      (ih fun order hmem => hacts order (List.mem_cons_of_mem _ hmem))

/-- A program that has failed has failed in one of its orders, after those before it. -/
theorem Follows.of_failed (h : Follows act orders trace (.failed error : Outcome ε α)) :
    ∃ done order rest first last, orders = done ++ order :: rest ∧ trace = first ++ last ∧
      Follows act done first (.returned () : Outcome ε Unit) ∧
      Plays (act order) last (.failed error) := by
  induction orders generalizing trace with
  | nil => cases h
  | cons order orders ih =>
    cases h with
    | broken hplay => exact ⟨[], order, orders, [], trace, rfl, rfl, .finished (), hplay⟩
    | next hplay hfollows =>
      obtain ⟨done, broken, rest, first, last, rfl, rfl, hdone, hbroken⟩ := ih hfollows
      exact ⟨order :: done, broken, rest, _, last, rfl, (List.append_assoc _ _ _).symm,
        .next hplay hdone, hbroken⟩

/-- A program that has returned has carried out each of its orders. -/
theorem Follows.of_returned {value : α}
    (h : Follows act orders trace (.returned value : Outcome ε α)) {order : ι}
    (horder : order ∈ orders) :
    ∃ piece, piece <:+: trace ∧ Plays (act order) piece (.returned ()) := by
  induction orders generalizing trace with
  | nil => cases horder
  | cons first orders ih =>
    cases h with
    | next hplay hfollows =>
      rcases List.mem_cons.mp horder with rfl | horder
      · exact ⟨_, (List.prefix_append _ _).isInfix, hplay⟩
      · obtain ⟨piece, hpiece, hplays⟩ := ih hfollows horder
        exact ⟨piece, hpiece.trans (List.suffix_append _ _).isInfix, hplays⟩

end Events

section Wholes

variable {ι γ : Type} {act : ι → Dialogue Op Answer ε Unit} {orders : List ι}
  {trace rest : List (Event Answer)} {outcome : Outcome ε α}

open Dialogue

/-- The trace is one of the wholes, or the beginning of one that has been broken off, if the program
has failed, by a fatal event. -/
def Fits (whole : γ → List (Event Answer)) (fatal : Event Answer → ε → Prop) :
    Condition Answer ε α
  | trace, .returned _ => ∃ choice, trace = whole choice
  | trace, .running => ∃ choice, trace <+: whole choice
  | trace, .failed error => ∃ choice before last, trace = before ++ [last] ∧
      before <+: whole choice ∧ fatal last error

theorem flatMap_update [DecidableEq ι] {order : ι} (horder : order ∉ orders)
    (piece : ι → γ → List (Event Answer)) (choice : ι → γ) (c : γ) :
    ((order :: orders).flatMap fun o => piece o (Function.update choice order c o)) =
      piece order c ++ orders.flatMap fun o => piece o (choice o) := by
  rw [List.flatMap_cons, Function.update_self]
  refine congrArg _ (List.flatMap_congr fun o ho => ?_)
  have hne : o ≠ order := fun heq => horder (heq ▸ ho)
  rw [Function.update_of_ne hne]

/-- Orders that are all different are carried out piece by piece, with a choice for each. -/
theorem Follows.fits [Nonempty γ] {piece : ι → γ → List (Event Answer)}
    {fatal : Event Answer → ε → Prop} (hnodup : orders.Nodup)
    (hacts : ∀ order ∈ orders, (act order).wp (Fits (piece order) fatal))
    (h : Follows act orders trace outcome) :
    Fits (fun choice : ι → γ => orders.flatMap fun order => piece order (choice order)) fatal
      trace outcome := by
  classical
  have hany : γ := Classical.arbitrary γ
  induction h with
  | finished value => exact ⟨fun _ => hany, rfl⟩
  | paused orders => exact ⟨fun _ => hany, List.nil_prefix⟩
  | begun hplay =>
    obtain ⟨c, hc⟩ := wp_iff_plays.mp (hacts _ List.mem_cons_self) _ _ hplay
    exact ⟨fun _ => c, hc.trans (List.prefix_append _ _)⟩
  | broken hplay =>
    obtain ⟨c, before, last, heq, hc, hfatal⟩ :=
      wp_iff_plays.mp (hacts _ List.mem_cons_self) _ _ hplay
    exact ⟨fun _ => c, before, last, heq, hc.trans (List.prefix_append _ _), hfatal⟩
  | @next order orders trace rest outcome hplay hfollows ih =>
    obtain ⟨c, hc⟩ := wp_iff_plays.mp (hacts _ List.mem_cons_self) _ _ hplay
    have horder := (List.nodup_cons.mp hnodup).1
    have hrest := ih (List.nodup_cons.mp hnodup).2
      fun order hmem => hacts order (List.mem_cons_of_mem _ hmem)
    subst hc
    cases outcome with
    | returned value =>
      obtain ⟨choice, rfl⟩ := hrest
      exact ⟨Function.update choice order c, (flatMap_update horder piece choice c).symm⟩
    | running =>
      obtain ⟨choice, hchoice⟩ := hrest
      refine ⟨Function.update choice order c, ?_⟩
      change _ <+: (order :: orders).flatMap fun o => piece o (Function.update choice order c o)
      rw [flatMap_update horder]
      exact (List.prefix_append_right_inj _).mpr hchoice
    | failed error =>
      obtain ⟨choice, before, last, rfl, hchoice, hfatal⟩ := hrest
      refine ⟨Function.update choice order c, piece order c ++ before, last,
        (List.append_assoc _ _ _).symm, ?_, hfatal⟩
      change _ <+: (order :: orders).flatMap fun o => piece o (Function.update choice order c o)
      rw [flatMap_update horder]
      exact (List.prefix_append_right_inj _).mpr hchoice

theorem Plays.bind {program : Dialogue Op Answer ε α} {f : α → Dialogue Op Answer ε β} {value : α}
    {outcome : Outcome ε β} (h : Plays program trace (.returned value))
    (hrest : Plays (f value) rest outcome) : Plays (program.bind f) (trace ++ rest) outcome := by
  induction program generalizing trace with
  | done result =>
    cases h
    exact hrest
  | throw error => cases h
  | cut => cases h
  | perform op next ih =>
    cases h with
    | perform hplay => exact .perform (ih _ hplay)

/-- A loop whose rounds can all be played through can be played through. -/
theorem plays_repeatUpTo {w : ℕ} (body : BitVec w → σ → Dialogue Op Answer ε σ) {bound : BitVec w}
    (pieces : ℕ → List (Event Answer)) (hbound : bound ≠ BitVec.allOnes w)
    (hround : ∀ (i : BitVec w) (s : σ), ∃ s', Plays (body i s) (pieces i.toNat) (.returned s'))
    {fuel k : ℕ} (hfuel : bound.toNat < fuel + k) {i : BitVec w} (hi : i.toNat = k + 1)
    (hk : k ≤ bound.toNat) (s : σ) :
    ∃ s', Plays (repeatUpTo body bound fuel i s)
      ((List.range' (k + 1) (bound.toNat - k)).flatMap pieces) (.returned s') := by
  have hlast := succ_lt_of_ne_allOnes hbound
  induction fuel generalizing k i s with
  | zero => omega
  | succ fuel ih =>
    rw [repeatUpTo]
    by_cases hle : i ≤ bound
    · have hlt := BitVec.le_def.mp hle
      have hsucc : bound.toNat - k = bound.toNat - (k + 1) + 1 := by omega
      obtain ⟨next, hnext⟩ := hround i s
      obtain ⟨s', hs'⟩ := ih (show bound.toNat < fuel + (k + 1) by omega)
        (show (i + 1).toNat = k + 1 + 1 by rw [toNat_succ (by omega)]; omega) (by omega) next
      refine ⟨s', ?_⟩
      rw [if_pos hle, hsucc, List.range'_succ, List.flatMap_cons, ← hi]
      rw [← hi] at hs'
      exact hnext.bind hs'
    · rw [BitVec.le_def] at hle
      have hdone : bound.toNat - k = 0 := by omega
      refine ⟨s, ?_⟩
      rw [if_neg (by rwa [BitVec.le_def]), hdone]
      exact .done s

end Wholes

section Environments

namespace Dialogue

/-- No part of the program has been cut off. -/
def Whole : Dialogue Op Answer ε α → Prop
  | done _ | throw _ => True
  | perform _ next => ∀ answer, (next answer).Whole
  | cut => False

variable {program : Dialogue Op Answer ε α}

theorem Whole.bind {f : α → Dialogue Op Answer ε β} (h : program.Whole)
    (hrest : ∀ value, (f value).Whole) : (program.bind f).Whole := by
  induction program with
  | done value => exact hrest value
  | throw error => trivial
  | perform op next ih => exact fun answer => ih answer (h answer)
  | cut => exact h.elim

theorem Whole.attempt (h : program.Whole) : program.attempt.Whole := by
  induction program with
  | done value | throw error => trivial
  | perform op next ih => exact fun answer => ih answer (h answer)
  | cut => exact h.elim

theorem whole_ofExcept (result : Except ε α) :
    (ofExcept result : Dialogue Op Answer ε α).Whole := by
  cases result <;> trivial

theorem whole_repeatUpTo {w : ℕ} (body : BitVec w → σ → Dialogue Op Answer ε σ) {bound : BitVec w}
    (hbound : bound ≠ BitVec.allOnes w) (hbody : ∀ i s, (body i s).Whole)
    {fuel k : ℕ} (hfuel : bound.toNat < fuel + k) {i : BitVec w} (hi : i.toNat = k + 1)
    (hk : k ≤ bound.toNat) (s : σ) : (repeatUpTo body bound fuel i s).Whole := by
  have hlast := succ_lt_of_ne_allOnes hbound
  induction fuel generalizing k i s with
  | zero => omega
  | succ fuel ih =>
    rw [repeatUpTo]
    by_cases hle : i ≤ bound
    · have hlt := BitVec.le_def.mp hle
      rw [if_pos hle]
      refine (hbody i s).bind fun next =>
        ih (show bound.toNat < fuel + (k + 1) by omega) ?_ (by omega) next
      rw [toNat_succ (by omega)]
      omega
    · rw [if_neg hle]
      trivial

/-- Against an environment that has one answer for each operation, the program comes to its end. -/
theorem Whole.plays (h : program.Whole) (answer : (op : Op) → Answer op) :
    ∃ trace outcome, Plays program trace outcome ∧ outcome ≠ .running ∧
      ∀ event ∈ trace, event.2 = answer event.1 := by
  induction program with
  | done value => exact ⟨[], _, .done value, nofun, nofun⟩
  | throw error => exact ⟨[], _, .throw error, nofun, nofun⟩
  | perform op next ih =>
    obtain ⟨trace, outcome, hplay, hended, hanswers⟩ := ih (answer op) (h (answer op))
    refine ⟨⟨op, answer op⟩ :: trace, outcome, .perform hplay, hended, fun event hevent => ?_⟩
    rcases List.mem_cons.mp hevent with rfl | hevent
    · rfl
    · exact hanswers event hevent
  | cut => exact h.elim

end Dialogue

end Environments

end ProtobufKafkaBench.Dialogues

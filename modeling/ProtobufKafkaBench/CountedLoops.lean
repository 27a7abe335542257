import Mathlib.Data.BitVec

/-!
Loops over a counter of fixed width. A loop that runs while its counter is below
the bound always ends, after as many rounds as the bound is away. A loop that
runs while its counter is at most the bound ends after one round more, unless
the bound is the largest counter: then the counter wraps and the loop never ends.
-/
namespace ProtobufKafkaBench.CountedLoops

variable {σ : Type*} {w : ℕ}

section Rounds

/-- So many rounds of a body, with a counter that goes up by one. -/
def rounds (body : BitVec w → σ → σ) : ℕ → BitVec w → σ → σ
  | 0, _, s => s
  | count + 1, i, s => rounds body count (i + 1) (body i s)

variable {body : BitVec w → σ → σ}

theorem rounds_snoc (count : ℕ) (i : BitVec w) (s : σ) :
    rounds body (count + 1) i s = body (i + BitVec.ofNat w count) (rounds body count i s) := by
  induction count generalizing i s with
  | zero => simp [rounds]
  | succ count ih =>
    rw [rounds, ih, rounds]
    have hcounter : i + 1 + BitVec.ofNat w count = i + BitVec.ofNat w (count + 1) := by
      rw [BitVec.add_assoc, BitVec.add_comm 1, BitVec.ofNat_add]
      rfl
    rw [hcounter]

/-- What holds at first and is kept by every round holds after all of them. -/
theorem rounds_invariant (holds : ℕ → σ → Prop) {count : ℕ} {i : BitVec w} {s : σ}
    (hinit : holds 0 s)
    (hround : ∀ k < count, ∀ t, holds k t → holds (k + 1) (body (i + BitVec.ofNat w k) t)) :
    holds count (rounds body count i s) := by
  induction count with
  | zero => exact hinit
  | succ count ih =>
    rw [rounds_snoc]
    apply hround count (Nat.lt_succ_self count)
    exact ih fun k hk => hround k (Nat.lt_succ_of_lt hk)

end Rounds

section Counters

theorem toNat_succ {i : BitVec w} (h : i.toNat + 1 < 2 ^ w) : (i + 1).toNat = i.toNat + 1 := by
  have hone : (1 : BitVec w).toNat = 1 :=
    (BitVec.toNat_ofNat 1 w).trans (Nat.mod_eq_of_lt (by omega))
  rw [BitVec.toNat_add, hone, Nat.mod_eq_of_lt h]

/-- The counter of a round that has not wrapped. -/
theorem toNat_round {i : BitVec w} {k : ℕ} (h : i.toNat + k < 2 ^ w) :
    (i + BitVec.ofNat w k).toNat = i.toNat + k := by
  rw [BitVec.toNat_add, BitVec.toNat_ofNat, Nat.mod_eq_of_lt (show k < 2 ^ w by omega),
    Nat.mod_eq_of_lt h]

theorem succ_lt_of_ne_allOnes {bound : BitVec w} (h : bound ≠ BitVec.allOnes w) :
    bound.toNat + 1 < 2 ^ w := by
  have hlt := bound.isLt
  have hne : bound.toNat ≠ 2 ^ w - 1 := by
    intro heq
    apply h
    apply BitVec.eq_of_toNat_eq
    rw [heq, BitVec.toNat_allOnes]
  omega

end Counters

section Below

/-- `for (; i < bound; ++i)`. -/
def forBelow (body : BitVec w → σ → σ) (bound i : BitVec w) (s : σ) : σ :=
  if h : i < bound then forBelow body bound (i + 1) (body i s) else s
termination_by bound.toNat - i.toNat
decreasing_by
  have hbound := bound.isLt
  rw [BitVec.lt_def] at h
  rw [toNat_succ (by omega)]
  omega

/-- It takes a round for each counter below the bound. -/
theorem forBelow_eq_rounds (body : BitVec w → σ → σ) (bound i : BitVec w) (s : σ) :
    forBelow body bound i s = rounds body (bound.toNat - i.toNat) i s := by
  fun_induction forBelow body bound i s with
  | case1 i s h ih =>
    have hbound := bound.isLt
    rw [BitVec.lt_def] at h
    rw [ih, toNat_succ (by omega)]
    have hcount : bound.toNat - i.toNat = bound.toNat - (i.toNat + 1) + 1 := by omega
    rw [hcount]
    rfl
  | case2 i s h =>
    rw [BitVec.lt_def] at h
    have hcount : bound.toNat - i.toNat = 0 := by omega
    rw [hcount]
    rfl

theorem forBelow_zero (body : BitVec w → σ → σ) (bound : BitVec w) (s : σ) :
    forBelow body bound 0 s = rounds body bound.toNat 0 s := by
  have hzero : (0 : BitVec w).toNat = 0 := BitVec.toNat_zero
  rw [forBelow_eq_rounds, hzero, Nat.sub_zero]

end Below

section UpTo

/-- `for (; i <= bound; ++i)`, cut off after `fuel` rounds. -/
def forUpTo (body : BitVec w → σ → σ) (bound : BitVec w) : ℕ → BitVec w → σ → Option σ
  | 0, _, _ => none
  | fuel + 1, i, s => if i ≤ bound then forUpTo body bound fuel (i + 1) (body i s) else some s

variable {body : BitVec w → σ → σ} {bound : BitVec w}

/-- No counter is above the largest one. -/
theorem forUpTo_largest (fuel : ℕ) (i : BitVec w) (s : σ) :
    forUpTo body (BitVec.allOnes w) fuel i s = none := by
  induction fuel generalizing i s with
  | zero => rfl
  | succ fuel ih =>
    have hle : i ≤ BitVec.allOnes w := by
      have hlt := i.isLt
      rw [BitVec.le_def, BitVec.toNat_allOnes]
      omega
    rw [forUpTo, if_pos hle]
    exact ih _ _

theorem forUpTo_eq_some {fuel count : ℕ} {i : BitVec w} (hbound : bound.toNat + 1 < 2 ^ w)
    (hcount : i.toNat + count = bound.toNat + 1) (hfuel : count < fuel) (s : σ) :
    forUpTo body bound fuel i s = some (rounds body count i s) := by
  induction count generalizing fuel i s with
  | zero =>
    obtain ⟨fuel, rfl⟩ := Nat.exists_eq_succ_of_ne_zero (Nat.ne_of_gt hfuel)
    have habove : ¬ i ≤ bound := by
      rw [BitVec.le_def]
      omega
    rw [forUpTo, if_neg habove]
    rfl
  | succ count ih =>
    obtain ⟨fuel, rfl⟩ := Nat.exists_eq_succ_of_ne_zero (Nat.ne_of_gt (Nat.zero_lt_of_lt hfuel))
    have hle : i ≤ bound := by
      rw [BitVec.le_def]
      omega
    rw [forUpTo, if_pos hle]
    apply ih
    · rw [toNat_succ (by omega)]
      omega
    · omega

theorem forUpTo_mono {fuel fuel' : ℕ} {i : BitVec w} {s t : σ} (hle : fuel ≤ fuel')
    (h : forUpTo body bound fuel i s = some t) : forUpTo body bound fuel' i s = some t := by
  induction fuel generalizing fuel' i s with
  | zero => cases h
  | succ fuel ih =>
    obtain ⟨fuel', rfl⟩ := Nat.exists_eq_succ_of_ne_zero (show fuel' ≠ 0 by omega)
    rw [forUpTo] at h ⊢
    by_cases hcounter : i ≤ bound
    · rw [if_pos hcounter] at h ⊢
      exact ih (by omega) h
    · rw [if_neg hcounter] at h ⊢
      exact h

/-- A loop that has ended has taken some number of rounds. -/
theorem forUpTo_eq_rounds {fuel : ℕ} {i : BitVec w} {s t : σ}
    (h : forUpTo body bound fuel i s = some t) : ∃ count, t = rounds body count i s := by
  induction fuel generalizing i s with
  | zero => cases h
  | succ fuel ih =>
    rw [forUpTo] at h
    by_cases hcounter : i ≤ bound
    · rw [if_pos hcounter] at h
      obtain ⟨count, hcount⟩ := ih h
      exact ⟨count + 1, hcount⟩
    · rw [if_neg hcounter] at h
      exact ⟨0, (Option.some.inj h).symm⟩

/-- The loop from `first` ends exactly if the bound is not the largest counter, and then
it has taken a round for each counter up to the bound. -/
theorem forUpTo_ends_iff {first : BitVec w} (hfirst : first.toNat ≤ bound.toNat + 1) {s t : σ} :
    (∃ fuel, forUpTo body bound fuel first s = some t) ↔
      bound ≠ BitVec.allOnes w ∧ t = rounds body (bound.toNat + 1 - first.toNat) first s := by
  constructor
  · intro h
    obtain ⟨fuel, hfuel⟩ := h
    have hbound : bound ≠ BitVec.allOnes w := by
      intro heq
      rw [heq, forUpTo_largest] at hfuel
      cases hfuel
    refine ⟨hbound, ?_⟩
    have hlarge := succ_lt_of_ne_allOnes hbound
    have hmore := forUpTo_mono (Nat.le_max_left fuel (bound.toNat + 1 - first.toNat + 1)) hfuel
    rw [forUpTo_eq_some hlarge (by omega)
      (Nat.lt_of_succ_le (Nat.le_max_right fuel _))] at hmore
    exact (Option.some.inj hmore).symm
  · intro h
    obtain ⟨hbound, rfl⟩ := h
    have hlarge := succ_lt_of_ne_allOnes hbound
    exact ⟨_, forUpTo_eq_some hlarge (by omega) (Nat.lt_succ_self _) s⟩

end UpTo

end ProtobufKafkaBench.CountedLoops

import Mathlib.Algebra.Order.BigOperators.Group.List
import Replan.Proofs.Determinize.Chances
import Replan.Proofs.Effect.Gathering

set_option autoImplicit false

namespace Replan.Effect

theorem credit_skip_none {R : Type} [Number R] (extra : R) (outcomes : List (R × Effect R)) :
    creditSkip extra outcomes = none ↔ ∀ outcome ∈ outcomes, outcome.2 ≠ skip := by
  induction outcomes with
  | nil => simp [creditSkip]
  | cons outcome outcomes ih =>
      obtain ⟨p, e⟩ := outcome
      rw [creditSkip, List.forall_mem_cons, ← ih, Ne, ← is_skip_iff]
      split
      · next isSkip => simp [isSkip]
      · next changes => simp [changes]

theorem credit_skip_some {R : Type} [Number R] (extra : R) (outcomes credited : List (R × Effect R))
    (found : creditSkip extra outcomes = some credited) : ∃ before p after, outcomes = before ++ (p, skip) :: after ∧
      (∀ outcome ∈ before, outcome.2 ≠ skip) ∧ credited = before ++ (p + extra, skip) :: after := by
  induction outcomes generalizing credited with
  | nil => cases found
  | cons outcome outcomes ih =>
      obtain ⟨p, e⟩ := outcome
      rw [creditSkip] at found
      split at found
      · next isSkip =>
          rw [is_skip_iff] at isSkip
          cases found
          subst isSkip
          exact ⟨[], p, outcomes, rfl, by simp, rfl⟩
      · next changes =>
          rw [is_skip_iff] at changes
          obtain ⟨rest, later, rfl⟩ := Option.map_eq_some_iff.mp found
          obtain ⟨before, q, after, rfl, first, rfl⟩ := ih rest later
          exact ⟨(p, e) :: before, q, after, rfl, List.forall_mem_cons.mpr ⟨changes, first⟩, rfl⟩

variable {K : Type} [ExactNumber K]

def likely (found : List (K × Effect K)) : List (K × Effect K) :=
  found.filter fun outcome => Number.le Number.epsilon outcome.1

def lost (found : List (K × Effect K)) : K :=
  mass (found.filter fun outcome => !Number.le Number.epsilon outcome.1)

inductive Settles (found : List (K × Effect K)) : List (K × Effect K) → Prop where
  | credited (before : List (K × Effect K)) (p : K) (after : List (K × Effect K))
      (parted : likely found = before ++ (p, skip) :: after) (first : ∀ outcome ∈ before, outcome.2 ≠ skip) :
      Settles found (before ++ (p + lost found, skip) :: after)
  | appended (none : ∀ outcome ∈ likely found, outcome.2 ≠ skip) (enough : Number.epsilon ≤ lost found) :
      Settles found (likely found ++ [(lost found, skip)])
  | dropped (none : ∀ outcome ∈ likely found, outcome.2 ≠ skip) (few : lost found < Number.epsilon) :
      Settles found (likely found)

theorem mem_likely (found : List (K × Effect K)) (outcome : K × Effect K) :
    outcome ∈ likely found ↔ outcome ∈ found ∧ Number.epsilon ≤ outcome.1 := by
  rw [likely, List.mem_filter, Number.le_exact]

theorem likely_and_lost (found : List (K × Effect K)) : mass (likely found) + lost found = mass found := by
  let isLikely : K × Effect K → Bool := fun outcome => Number.le Number.epsilon outcome.1
  have together := ((List.filter_append_perm isLikely found).map Prod.fst).sum_eq
  rw [List.map_append, List.sum_append] at together
  simpa only [mass_exact, likely, lost] using together

theorem lost_nonneg (found : List (K × Effect K)) (nonneg : ∀ outcome ∈ found, 0 ≤ outcome.1) : 0 ≤ lost found := by
  rw [lost, mass_exact]
  exact List.sum_nonneg (List.forall_mem_map.mpr fun outcome member => nonneg outcome (List.mem_filter.mp member).1)

theorem settle_credited (found credited : List (K × Effect K))
    (credit : creditSkip (lost found) (likely found) = some credited) :
    settle found = if 0 < lost found then credited else likely found := by
  rw [lost, likely] at credit ⊢
  simp only [settle, credit, Number.lt_exact, Number.zero_exact]

theorem settle_uncredited (found : List (K × Effect K)) (credit : creditSkip (lost found) (likely found) = none) :
    settle found = if 0 < lost found then
      if Number.epsilon ≤ lost found then likely found ++ [(lost found, skip)] else likely found
      else likely found := by
  rw [lost, likely] at credit ⊢
  simp only [settle, credit, Number.lt_exact, Number.zero_exact, Number.le_exact]

theorem settle_settles (found : List (K × Effect K)) (nonneg : ∀ outcome ∈ found, 0 ≤ outcome.1) :
    Settles found (settle found) := by
  cases credit : creditSkip (lost found) (likely found) with
  | some credited =>
      rw [settle_credited found credited credit]
      obtain ⟨before, p, after, parted, first, rfl⟩ := credit_skip_some _ _ _ credit
      have settled := Settles.credited before p after parted first
      split
      · exact settled
      · next nothing =>
          have zero : lost found = 0 := le_antisymm (not_lt.mp nothing) (lost_nonneg found nonneg)
          rw [zero, add_zero, ← parted] at settled
          exact settled
  | none =>
      rw [settle_uncredited found credit]
      have changes := (credit_skip_none _ _).mp credit
      split
      · split
        · next enough => exact .appended changes enough
        · next few => exact .dropped changes (not_le.mp few)
      · next nothing => exact .dropped changes ((not_lt.mp nothing).trans_lt Number.epsilon_positive)

section Settled

variable {found settled : List (K × Effect K)} (nonneg : ∀ outcome ∈ found, 0 ≤ outcome.1)
  (settles : Settles found settled)

include settles

include nonneg in
theorem settled_likely : ∀ outcome ∈ settled, Number.epsilon ≤ outcome.1 := by
  have kept : ∀ outcome ∈ likely found, Number.epsilon ≤ outcome.1 := fun outcome member =>
    ((mem_likely found outcome).mp member).2
  cases settles with
  | credited before p after parted first =>
      rw [parted, List.forall_mem_append, List.forall_mem_cons] at kept
      obtain ⟨early, here, late⟩ := kept
      have more := here.trans (le_add_of_nonneg_right (lost_nonneg found nonneg))
      exact List.forall_mem_append.mpr ⟨early, List.forall_mem_cons.mpr ⟨more, late⟩⟩
  | appended none enough => exact List.forall_mem_append.mpr ⟨kept, List.forall_mem_singleton.mpr enough⟩
  | dropped none few => exact kept

theorem settled_mass : mass settled = mass found ∨
    (∀ outcome ∈ likely found, outcome.2 ≠ skip) ∧ lost found < Number.epsilon ∧
      mass settled + lost found = mass found := by
  rw [← likely_and_lost found]
  cases settles with
  | credited before p after parted first =>
      left
      simp only [parted, mass_exact, List.map_append, List.sum_append, List.map_cons, List.sum_cons]
      rw [add_right_comm p, ← add_assoc]
  | appended none enough =>
      left
      rw [mass_exact, List.map_append, List.sum_append, ← mass_exact, List.map_singleton, List.sum_singleton]
  | dropped none few => exact .inr ⟨none, few, rfl⟩

end Settled

end Replan.Effect

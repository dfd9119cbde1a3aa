import Mathlib.Algebra.Order.Field.Basic
import Replan.Proofs.Determinize.Preprocess

set_option autoImplicit false

namespace Replan

open Results

variable {K : Type} [ExactNumber K]

namespace Effect

def Chanced (outcomes : List (K × Effect K)) : Prop := ∀ outcome ∈ outcomes, 0 < outcome.1

theorem chanced_cons (outcome : K × Effect K) (rest : List (K × Effect K)) :
    Chanced (outcome :: rest) ↔ 0 < outcome.1 ∧ Chanced rest := List.forall_mem_cons

theorem chanced_iff (outcomes : List (K × Effect K)) : Chanced outcomes ↔ ∀ p ∈ outcomes.map Prod.fst, 0 < p :=
  List.forall_mem_map.symm

theorem credit_skip_chanced (extra : K) (positive : 0 < extra) (outcomes credited : List (K × Effect K))
    (chanced : Chanced outcomes) (found : creditSkip extra outcomes = some credited) : Chanced credited := by
  induction outcomes generalizing credited with
  | nil => cases found
  | cons outcome outcomes ih =>
      obtain ⟨p, e⟩ := outcome
      obtain ⟨first, others⟩ := (chanced_cons (p, e) outcomes).mp chanced
      rw [creditSkip] at found
      split at found
      · cases found
        exact (chanced_cons _ _).mpr ⟨add_pos first positive, others⟩
      · obtain ⟨rest, later, rfl⟩ := Option.map_eq_some_iff.mp found
        exact (chanced_cons _ _).mpr ⟨first, ih rest others later⟩

theorem settle_chanced (outcomes : List (K × Effect K)) : Chanced (settle outcomes) := by
  have kept : Chanced (outcomes.filter fun outcome => Number.le Number.epsilon outcome.1) := by
    intro outcome member
    have likely := (Number.le_exact _ _).mp (List.mem_filter.mp member).2
    exact lt_of_lt_of_le Number.epsilon_positive likely
  simp only [settle]
  split
  · next negligible =>
      rw [Number.lt_exact, Number.zero_exact] at negligible
      split
      · next credited found => exact credit_skip_chanced _ negligible _ credited kept found
      · split
        · intro outcome member
          rcases List.mem_append.mp member with old | last
          · exact kept outcome old
          · rw [List.mem_singleton.mp last]
            exact negligible
        · exact kept
  · exact kept

theorem expand_chanced (e : Effect K) (outcomes : List (K × Effect K)) (expanded : e.expand = .ok outcomes) :
    Chanced outcomes := by
  obtain ⟨found, -, rfl⟩ := (map_ok_iff _ _ _).mp expanded
  exact settle_chanced found

theorem numbered_chanced (outcomes : List (K × Effect K)) (chanced : Chanced outcomes) :
    Chanced (numbered outcomes) := by
  have certain (e : Effect K) : Chanced [((Number.one : K), e)] :=
    (chanced_cons _ _).mpr ⟨by rw [Number.one_exact]; exact one_pos, by simp [Chanced]⟩
  rcases outcomes with _ | ⟨⟨p, e⟩, _ | ⟨other, rest⟩⟩
  · exact certain skip
  · rw [numbered]
    split
    · exact certain e
    · exact chanced
  · exact chanced

theorem mass_exact (outcomes : List (K × Effect K)) : mass outcomes = (outcomes.map Prod.fst).sum :=
  Number.sum_exact _

end Effect

theorem Action.preprocess_chanced (a b : Action K) (became : a.preprocess = .ok b) : Effect.Chanced b.outcomes := by
  obtain ⟨os, expanded, numbering, -⟩ := a.preprocess_outcomes b became
  rw [numbering]
  exact Effect.numbered_chanced os (Effect.expand_chanced a.effect os expanded)

end Replan

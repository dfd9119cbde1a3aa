import Replan.Proofs.Determinize.Preprocess
import Replan.Proofs.Number.Exact

set_option autoImplicit false

namespace Replan

open Results

-- What the arithmetic of probabilities has to know of certainty.
class Number.Certainty (R : Type) [Number R] : Prop where
  product : (Number.one : R) * Number.one = Number.one
  possible : Number.le Number.epsilon (Number.one : R) = true
  certain : Number.le (Number.one - Number.epsilon) (Number.one : R) = true
  irreflexive : Number.lt (Number.zero : R) Number.zero = false

instance : Number.Certainty Float where
  product := by rfl
  possible := by rfl
  certain := by rfl
  irreflexive := by rfl

instance {K : Type} [ExactNumber K] : Number.Certainty K where
  product := by rw [Number.one_exact, one_mul]
  possible := by
    have small : (1 : K) / 10 ^ 6 ≤ 1 := div_le_self zero_le_one (one_le_pow₀ (by norm_num))
    rw [Number.le_exact, Number.one_exact]
    show ((1 : Nat) : K) / 10 ^ 6 ≤ 1
    rwa [Nat.cast_one]
  certain := (Number.le_exact _ _).mpr (sub_le_self _ Number.epsilon_positive.le)
  irreflexive := decide_eq_false (lt_irrefl _)

variable {R : Type} [Number R] [Number.Certainty R]

namespace Effect

theorem branches_list_certain (parts : List (Effect R))
    (each : ∀ e ∈ parts, ∃ e', e.branches = .ok [(Number.one, e')]) (sofar : List (Effect R)) :
    ∃ es, branchesOfList [(Number.one, sofar)] parts = .ok [(Number.one, es)] := by
  induction parts generalizing sofar with
  | nil => exact ⟨sofar, rfl⟩
  | cons e parts ih =>
      obtain ⟨⟨e', listed⟩, others⟩ := List.forall_mem_cons.mp each
      obtain ⟨es, rest⟩ := ih others (sofar ++ [e'])
      refine ⟨es, ?_⟩
      have crossed : cross [(Number.one, sofar)] [((Number.one : R), e')] = [(Number.one, sofar ++ [e'])] :=
        congrArg (fun p => [(p, sofar ++ [e'])]) Number.Certainty.product
      rw [branchesOfList, listed, ok_bind, crossed, rest]

theorem branches_certain (e : Effect R) (certain : e.hasProbabilistic = false) :
    ∃ e', e.branches = .ok [(Number.one, e')] := by
  induction e with
  | conj parts ih =>
      rw [has_probabilistic_conj, List.any_eq_false] at certain
      obtain ⟨es, listed⟩ := branches_list_certain parts
        (fun e member => ih e member (Bool.eq_false_iff.mpr (certain e member))) []
      refine ⟨(conj es).simplify, ?_⟩
      rw [branches, listed]
      rfl
  | forAll vars body _ =>
      rw [has_probabilistic_for_all] at certain
      exact ⟨forAll vars body, (branches_for_all vars body _).mpr ⟨certain, rfl⟩⟩
  | when q body _ =>
      rw [has_probabilistic_when] at certain
      exact ⟨when q body, (branches_when q body _).mpr ⟨certain, rfl⟩⟩
  | probabilistic outcomes _ =>
      rw [has_probabilistic_choice] at certain
      cases certain
  | skip | add | delete | assign => exact ⟨_, rfl⟩

theorem settle_certain (e : Effect R) : settle [(Number.one, e)] = [(Number.one, e)] := by
  have possible : Number.le Number.epsilon (Number.one : R) = true := Number.Certainty.possible
  have nothing : Number.lt Number.zero (mass ([] : List (R × Effect R))) = false := Number.Certainty.irreflexive
  simp only [settle, List.filter_cons, List.filter_nil, possible, if_pos, Bool.not_true, Bool.false_eq_true, if_false,
    nothing]

theorem expand_certain (e : Effect R) (certain : e.hasProbabilistic = false) :
    ∃ e', e.expand = .ok [(Number.one, e')] := by
  obtain ⟨e', listed⟩ := branches_certain e certain
  refine ⟨e', ?_⟩
  rw [expand, listed, Except.map, settle_certain]

end Effect

namespace Action

theorem preprocess_certain (a : Action R) (certain : a.effect.hasProbabilistic = false) : ∃ b, a.preprocess = .ok b := by
  obtain ⟨e, expanded⟩ := a.effect.expand_certain certain
  refine ⟨{ a with effect := e }, ?_⟩
  rw [preprocess, expanded, ok_bind, chooseAmong, if_pos Number.Certainty.certain]
  rfl

end Action

theorem Domain.preprocess_certain (d : Domain R) (certain : ∀ a ∈ d.actions, a.effect.hasProbabilistic = false) :
    ∃ d', d.preprocess = .ok d' := by
  obtain ⟨actions, preprocessed⟩ := (map_m_succeeds_iff Action.preprocess d.actions).mpr
    fun a known => a.preprocess_certain (certain a known)
  exact ⟨{ d with actions }, by rw [preprocess, preprocessed]; rfl⟩

end Replan

import Replan.Proofs.Effect.Vocabulary
import Replan.Successor

set_option autoImplicit false

namespace Replan

open Results

variable {R : Type}

def Action.Within (v : Vocabulary R) (a : Action R) : Prop :=
  a.precondition.Within v ∧ a.effect.Within v

def Domain.Within (v : Vocabulary R) (d : Domain R) : Prop := ∀ a ∈ d.actions, a.Within v

theorem Domain.within_both (v w : Vocabulary R) (d : Domain R) (first : d.Within v) (second : d.Within w) :
    d.Within (v.both w) := fun a member =>
  ⟨Query.within_both v w a.precondition (first a member).1 (second a member).1,
    Effect.within_both v w a.effect (first a member).2 (second a member).2⟩

def Problem.Within (v : Vocabulary R) (p : Problem R) : Prop :=
  p.domain.Within v ∧ p.goal.query.Within v

theorem ground_ok_iff (a : Action R) (args : List String) (g : Action R) :
    a.ground args = .ok g ↔ args.length = a.parameters.length ∧ a.bind (a.assignment args) = g := by
  by_cases arity : args.length = a.parameters.length
  · rw [Action.ground, if_pos arity]
    simp [arity]
  · rw [Action.ground, if_neg arity]
    simp [arity]

theorem problem_ground_ok_iff (p : Problem R) (step : Ground) (g : Action R) :
    p.ground step = .ok g ↔ ∃ a, p.domain.action? step.name = some a ∧ a.ground step.args = .ok g := by
  rw [Problem.ground]
  cases p.domain.action? step.name with
  | none => simp
  | some a => simp

theorem action_found (d : Domain R) (name : String) (a : Action R) (found : d.action? name = some a) :
    a ∈ d.actions ∧ a.name = name :=
  ⟨List.mem_of_find?_eq_some found, by simpa using List.find?_some found⟩

def Problem.HasInstance (p : Problem R) (g : Action R) : Prop :=
  g ∈ p.groundActions ∨ ∃ step, p.ground step = .ok g

theorem instance_bound (p : Problem R) (g : Action R) (known : p.HasInstance g) :
    ∃ a ∈ p.domain.actions, ∃ σ, g = a.bind σ := by
  rcases known with listed | ⟨step, named⟩
  · obtain ⟨a, known, bound⟩ := List.mem_flatMap.mp listed
    obtain ⟨σ, -, rfl⟩ := List.mem_map.mp bound
    exact ⟨a, known, σ, rfl⟩
  · obtain ⟨a, found, grounded⟩ := (problem_ground_ok_iff p step g).mp named
    obtain ⟨-, rfl⟩ := (ground_ok_iff a step.args g).mp grounded
    exact ⟨a, (action_found p.domain step.name a found).1, _, rfl⟩

variable [Number R]

theorem outcomes_in_ok_iff (p : Problem R) (s : State R) (step : Ground) (g : Action R)
    (os : List (R × Effect R)) :
    p.outcomesIn s step = .ok (g, os) ↔
      p.ground step = .ok g ∧ g.isApplicable s = true ∧ g.effect.expand = .ok os := by
  simp only [Problem.outcomesIn, bind_ok_iff]
  constructor
  · intro listing
    obtain ⟨found, grounded, listed⟩ := listing
    split at listed
    · next applicable =>
        simp only [bind_ok_iff, pure_ok_iff, Prod.mk.injEq] at listed
        obtain ⟨_, expanded, rfl, rfl⟩ := listed
        exact ⟨grounded, applicable, expanded⟩
    · cases listed
  · intro each
    obtain ⟨grounded, applicable, expanded⟩ := each
    refine ⟨g, grounded, ?_⟩
    rw [if_pos applicable, expanded]
    rfl

theorem successor_ok_iff (p : Problem R) (s : State R) (step : Ground) (g : Action R) (e : Effect R) (s' : State R) :
    p.successor s step g e = .ok s' ↔ { g with effect := e }.apply s (some p.goal) = .ok (some s') := by
  simp only [Problem.successor, bind_ok_iff]
  constructor
  · intro steps
    obtain ⟨next, applied, taken⟩ := steps
    cases next with
    | none => cases taken
    | some next =>
        cases taken
        exact applied
  · exact fun applied => ⟨some s', applied, rfl⟩

end Replan

import Replan.Plan
import Replan.Proofs.Effect.Meaning
import Replan.Proofs.Grounding

set_option autoImplicit false

namespace Replan

open Results

variable {R : Type} [Number R]

theorem collect_keeps (goal : Goal R) (before after : State R) :
    (goal.collect before after).facts = after.facts ∧ (goal.collect before after).world = after.world ∧
      ∀ f, f ≠ rewardAtom.ground → (goal.collect before after).value f = after.value f := by
  unfold Goal.collect
  split
  · exact ⟨rfl, rfl, fun f _ => rfl⟩
  · split
    · refine ⟨rfl, rfl, fun f seen => ?_⟩
      simp [State.value, seen]
    · exact ⟨rfl, rfl, fun f _ => rfl⟩

-- What the changes make of `s` is `s'`, but for the reward.
structure Changes.Lead (c : Changes R) (s s' : State R) : Prop where
  facts : s'.facts = c.revise s.facts
  world : s'.world = s.world
  values : ∀ f, f ≠ rewardAtom.ground → s'.value f = Changes.settle f (s.value f) c.assignments

theorem apply_to_leads (c : Changes R) (s : State R) : c.Lead s (c.applyTo s) :=
  ⟨Changes.apply_to_facts c s, Changes.apply_to_world c s, fun f _ => Changes.apply_to_value c s f⟩

theorem collect_leads (c : Changes R) (goal : Goal R) (s s' : State R) (leads : c.Lead s s') :
    c.Lead s (goal.collect s s') := by
  obtain ⟨facts, world, values⟩ := collect_keeps goal s s'
  exact ⟨facts.trans leads.facts, world.trans leads.world, fun f seen => (values f seen).trans (leads.values f seen)⟩

theorem applied_changes (a : Action R) (s s' : State R) (goal : Option (Goal R))
    (applied : a.apply s goal = .ok (some s')) :
    a.isApplicable s = true ∧ ∃ c, a.effect.changesUnder s [] = .ok c ∧ c.Lead s s' := by
  unfold Action.apply at applied
  split at applied
  · next applicable =>
      obtain ⟨next, changed, applied⟩ := (bind_ok_iff _ _ _).mp applied
      obtain ⟨c, gathered, rfl⟩ := (map_ok_iff _ _ _).mp changed
      refine ⟨applicable, c, gathered, ?_⟩
      cases goal with
      | none =>
          cases applied
          exact apply_to_leads c s
      | some goal =>
          cases applied
          exact collect_leads c goal s _ (apply_to_leads c s)
  · cases applied

theorem instance_applied (a : Action R) (σ : Substitution) (deterministic : a.effect.hasProbabilistic = false)
    (s s' : State R) (goal : Option (Goal R)) (applied : (a.bind σ).apply s goal = .ok (some s')) :
    (a.bind σ).isApplicable s = true ∧ (a.effect.gathered s [σ]).Lead s s' := by
  obtain ⟨applicable, c, changes, leads⟩ := applied_changes _ s s' goal applied
  have bound : (a.effect.bind σ).hasProbabilistic = false := by
    rw [Effect.has_probabilistic_bind, deterministic]
  rw [Action.bind, Effect.changes_gathered _ bound, Effect.gathered_bind] at changes
  cases changes
  exact ⟨applicable, leads⟩

theorem deterministic_applies (a : Action R) (deterministic : a.effect.hasProbabilistic = false) (s : State R)
    (goal : Option (Goal R)) (applicable : a.isApplicable s = true) : ∃ s', a.apply s goal = .ok (some s') := by
  rw [Action.apply, if_pos applicable, Effect.apply_gathered a.effect deterministic s]
  cases goal with
  | none => exact ⟨_, rfl⟩
  | some goal => exact ⟨_, rfl⟩

theorem instance_applies (a : Action R) (σ : Substitution) (deterministic : a.effect.hasProbabilistic = false)
    (s : State R) (goal : Option (Goal R)) (applicable : (a.bind σ).isApplicable s = true) :
    ∃ s', (a.bind σ).apply s goal = .ok (some s') :=
  deterministic_applies (a.bind σ) ((Effect.has_probabilistic_bind a.effect σ).trans deterministic) s goal applicable

-- The instances applied so far, and the state that they lead to.
inductive Reaches (p : Problem R) : List (Action R) → State R → Prop
  | start : Reaches p [] p.initialState
  | step (done : List (Action R)) (g : Action R) (s s' : State R) (goal : Option (Goal R)) :
      Reaches p done s → p.HasInstance g → g.apply s goal = .ok (some s') → Reaches p (done ++ [g]) s'

theorem reached_ordered (p : Problem R) (done : List (Action R)) (s : State R) (reached : Reaches p done s) :
    s.facts.Pairwise (· < ·) := by
  induction reached with
  | start =>
      rw [Problem.initialState, State.of_facts_facts]
      exact Sorted.of_list_ordered _
  | step done g s s' goal _ _ applied ih =>
      obtain ⟨-, c, -, leads⟩ := applied_changes g s s' goal applied
      rw [leads.facts]
      exact c.revise_ordered s.facts ih

-- The states that a plan passes through behind `s`.
inductive Executes (p : Problem R) : State R → Plan → List (State R) → Prop
  | done (s : State R) : Executes p s [] []
  | step (s s' : State R) (step : Ground) (g : Action R) (goal : Option (Goal R)) (rest : Plan)
      (states : List (State R)) : p.ground step = .ok g → g.apply s goal = .ok (some s') →
      Executes p s' rest states → Executes p s (step :: rest) (s' :: states)

end Replan

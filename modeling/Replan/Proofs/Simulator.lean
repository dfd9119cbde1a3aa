import Replan.Proofs.Effect.Expansion
import Replan.Proofs.Run
import Replan.Simulator

set_option autoImplicit false

namespace Replan

open Results

variable {R : Type} [Number R]

theorem drawn_deterministic (outcomes : List (R × Effect R))
    (each : ∀ outcome ∈ outcomes, outcome.2.hasProbabilistic = false) (draw : R) :
    (Problem.drawnEffect outcomes draw).hasProbabilistic = false := by
  unfold Problem.drawnEffect
  split
  · next outcome found => exact each outcome (List.mem_of_getElem? found)
  · rfl

theorem drawn_succeeds (p : Problem R) (s : State R) (step : Ground) (g : Action R) (os : List (R × Effect R))
    (listed : p.outcomesIn s step = .ok (g, os)) (draw : R) :
    ∃ s', p.successor s step g (Problem.drawnEffect os draw) = .ok s' := by
  obtain ⟨-, applicable, expanded⟩ := (outcomes_in_ok_iff p s step g os).mp listed
  have deterministic := drawn_deterministic os (Effect.expand_deterministic g.effect os expanded) draw
  obtain ⟨s', applied⟩ := deterministic_applies { g with effect := Problem.drawnEffect os draw } deterministic s
    (some p.goal) applicable
  exact ⟨s', (successor_ok_iff p s step g _ s').mpr applied⟩

theorem sample_refused (p : Problem R) (s : State R) (step : Ground) (dice : Dice R) (e : Error R)
    (refused : p.outcomesIn s step = .error e) : p.sample s step dice = (.error e, dice) := by
  rw [Problem.sample, refused]

theorem sample_taken (p : Problem R) (s : State R) (step : Ground) (dice : Dice R) (g : Action R)
    (os : List (R × Effect R)) (listed : p.outcomesIn s step = .ok (g, os)) :
    ∃ s', p.sample s step dice = (.ok s', dice.roll.2) ∧
      p.successor s step g (Problem.drawnEffect os dice.roll.1) = .ok s' := by
  obtain ⟨s', next⟩ := drawn_succeeds p s step g os listed dice.roll.1
  refine ⟨s', ?_, next⟩
  rw [Problem.sample, listed]
  exact Prod.ext next rfl

theorem sample_ok_iff (p : Problem R) (s s' : State R) (step : Ground) (dice : Dice R) :
    (p.sample s step dice).1 = .ok s' ↔ ∃ g os, p.outcomesIn s step = .ok (g, os) ∧
      p.successor s step g (Problem.drawnEffect os dice.roll.1) = .ok s' := by
  rw [Problem.sample]
  cases p.outcomesIn s step with
  | error e => simp
  | ok found =>
      obtain ⟨g, os⟩ := found
      simp [and_assoc]

namespace Simulator

theorem step_cases (sim : Simulator R) (now : Nat) (action : Ground) (p : Problem R) (s : State R)
    (loaded : sim.loaded = some (p, s)) :
    (sim.timedOut now = true ∧ sim.step now action = (.ok ⟨p.isGoal s, true, s⟩, sim)) ∨
      (sim.timedOut now = false ∧ ∃ e, p.outcomesIn s action = .error e ∧ sim.step now action = (.error e, sim)) ∨
      (sim.timedOut now = false ∧ ∃ g os s', p.outcomesIn s action = .ok (g, os) ∧
        p.sample s action sim.dice = (.ok s', sim.dice.roll.2) ∧
        p.successor s action g (Problem.drawnEffect os sim.dice.roll.1) = .ok s' ∧
        sim.step now action = (.ok ⟨p.isGoal s', false, s'⟩,
          { sim with loaded := some (p, s'), dice := sim.dice.roll.2, history := sim.history ++ [(action, s')] })) := by
  simp only [step, loaded]
  cases late : sim.timedOut now with
  | true => exact .inl ⟨rfl, rfl⟩
  | false =>
      right
      cases listed : p.outcomesIn s action with
      | error e =>
          refine .inl ⟨rfl, e, rfl, ?_⟩
          rw [sample_refused p s action sim.dice e listed, ← loaded]
          rfl
      | ok found =>
          obtain ⟨g, os⟩ := found
          obtain ⟨s', sampled, next⟩ := sample_taken p s action sim.dice g os listed
          refine .inr ⟨rfl, g, os, s', rfl, sampled, next, ?_⟩
          rw [sampled]
          rfl

/-- A step of the simulator is taken as a whole or not at all. -/
theorem steps_are_atomic (sim : Simulator R) (now : Nat) (action : Ground) :
    match sim.step now action with
    | (.error e, after) =>
        after = sim ∧ (sim.loaded = none ∧ e = .of .noProblem ∨
          ∃ p s, sim.loaded = some (p, s) ∧ p.outcomesIn s action = .error e)
    | (.ok result, after) =>
        ∃ p s, sim.loaded = some (p, s) ∧ result.timedOut = sim.timedOut now ∧ result.done = p.isGoal result.state ∧
          if result.timedOut then after = sim ∧ result.state = s
          else
            after = { sim with
              loaded := some (p, result.state)
              dice := ⟨sim.dice.draws, sim.dice.used + 1⟩
              history := sim.history ++ [(action, result.state)] } ∧
            ∃ g os, p.outcomesIn s action = .ok (g, os) ∧
              p.successor s action g (Problem.drawnEffect os (sim.dice.draws sim.dice.used)) = .ok result.state := by
  cases loaded : sim.loaded with
  | none =>
      have refused : sim.step now action = (.error (.of .noProblem), sim) := by rw [step, loaded]
      rw [refused]
      exact ⟨rfl, .inl ⟨rfl, rfl⟩⟩
  | some current =>
      obtain ⟨p, s⟩ := current
      obtain ⟨late, stepped⟩ | ⟨-, e, refused, stepped⟩ | ⟨inTime, g, os, s', listed, -, next, stepped⟩ :=
        step_cases sim now action p s loaded
      · rw [stepped]
        exact ⟨p, s, rfl, late.symm, rfl, rfl, rfl⟩
      · rw [stepped]
        exact ⟨rfl, .inr ⟨p, s, rfl, refused⟩⟩
      · rw [stepped]
        exact ⟨p, s, rfl, inTime.symm, rfl, rfl, g, os, listed, next⟩

end Simulator

end Replan

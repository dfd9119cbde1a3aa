import Replan.Effect.Expand
import Replan.Problem
import Replan.Random.Dice

set_option autoImplicit false

namespace Replan.Problem

variable {R : Type} [Number R]

def outcomesIn (p : Problem R) (s : State R) (step : Ground) :
    Except (Error R) (Action R × List (R × Effect R)) := do
  let ground ← p.ground step
  if ground.isApplicable s then
    let outcomes ← ground.effect.expand
    pure (ground, outcomes)
  else throw (.of (.inapplicableAction step.text))

def drawnEffect (outcomes : List (R × Effect R)) (draw : R) : Effect R :=
  match outcomes[pickOutcome (outcomes.map Prod.fst) draw]? with
  | some outcome => outcome.2
  | none => .skip

def successor (p : Problem R) (s : State R) (step : Ground) (a : Action R) (effect : Effect R) :
    Except (Error R) (State R) := do
  match ← { a with effect }.apply s (some p.goal) with
  | some next => pure next
  | none => throw (.of (.inapplicableAction step.text))

/-- The next state after `step`, with the outcome drawn from the dice. They are rolled once, and
only if the step can be taken at all. -/
def sample (p : Problem R) (s : State R) (step : Ground) (dice : Dice R) :
    Except (Error R) (State R) × Dice R :=
  match p.outcomesIn s step with
  | .error e => (.error e, dice)
  | .ok (a, outcomes) =>
      let (draw, rolled) := dice.roll
      (p.successor s step a (drawnEffect outcomes draw), rolled)

end Replan.Problem

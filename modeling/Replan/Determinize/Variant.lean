import Replan.Effect.Costs
import Replan.Effect.Expand
import Replan.Problem

set_option autoImplicit false

namespace Replan

namespace Action

variable {R : Type} [Number R]

def chooseAmong (outcomes : List (R × Effect R)) : Except (Error R) (Effect R) :=
  match outcomes with
  | [] => .ok .skip
  | [(p, e)] =>
      if Number.le (Number.one - Number.epsilon) p then .ok e else Effect.probabilistic? outcomes
  | _ => Effect.probabilistic? outcomes

def preprocess (a : Action R) : Except (Error R) (Action R) := do
  let outcomes ← a.effect.expand
  let effect ← chooseAmong outcomes
  pure { a with effect }

def outcomes (a : Action R) : List (R × Effect R) :=
  match a.effect with
  | .probabilistic os => os
  | e => [(Number.one, e)]

def variant (base : Action R) (outcome : Nat) (probability : R) (effect : Effect R) : Action R :=
  { name := base.name ++ "_o" ++ toString outcome
    parameters := base.parameters
    precondition := base.precondition
    effect
    origin := some ⟨base.name, outcome, probability, base.parameters.length⟩ }

end Action

namespace Domain

variable {R : Type} [Number R]

def preprocess (d : Domain R) : Except (Error R) (Domain R) := do
  let actions ← d.actions.mapM Action.preprocess
  pure { d with actions }

def paysCost (actions : List (Action R)) : Bool :=
  actions.any fun a => a.effect.modifiedFunctions.contains totalCostAtom.name

/-- The domain with other actions and without what only decision processes have. `total-cost` is
declared when an action pays it. -/
def classical (d : Domain R) (actions : List (Action R)) : Domain R :=
  let plain : Domain R :=
    { d with
      actions
      requirements := RequirementSet.diff d.requirements Requirement.mdpFeatures
      functions := d.functions.filter fun f => f.name != rewardAtom.name }
  let costed : Domain R :=
    if paysCost actions && !plain.usesCosts then
      { plain with functions := plain.functions ++ [totalCostAtom] }
    else plain
  if costed.usesCosts then
    { costed with requirements := RequirementSet.union costed.requirements [.actionCosts] }
  else costed

end Domain

end Replan

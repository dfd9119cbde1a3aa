import Replan.Determinize.Variant

set_option autoImplicit false

namespace Replan.AllOutcome

variable {R : Type} [Number R]

def variants (a : Action R) : List (Action R) :=
  a.outcomes.zipIdx.map fun (outcome, i) =>
    a.variant i outcome.1 outcome.2.withoutRewards.simplify

def determinize (preprocessed : Domain R) : Domain R :=
  preprocessed.classical (preprocessed.actions.flatMap variants)

end Replan.AllOutcome

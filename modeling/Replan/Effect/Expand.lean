import Replan.Effect.Simplify

set_option autoImplicit false

namespace Replan.Effect

variable {R : Type} [Number R]

def complete (massOf : R) (outcomes : List (R × Effect R)) : List (R × Effect R) :=
  let remaining := Number.one - massOf
  if Number.lt Number.epsilon remaining then outcomes ++ [(remaining, skip)] else outcomes

def cross (choices : List (R × List (Effect R))) (branches : List (R × Effect R)) :
    List (R × List (Effect R)) :=
  choices.flatMap fun choice =>
    branches.map fun branch => (choice.1 * branch.1, choice.2 ++ [branch.2])

mutual
/-- All outcomes with their probabilities, negligible ones included. Probabilistic effects under a
quantifier or a condition have no outcomes that could be listed here. -/
def branches : Effect R → Except (Error R) (List (R × Effect R))
  | probabilistic outcomes => do
      let inner ← branchesOfOutcomes outcomes
      pure (complete (mass outcomes) inner)
  | conj parts => do
      let choices ← branchesOfList [(Number.one, [])] parts
      pure (choices.map fun choice => (choice.1, (conj choice.2).simplify))
  | forAll vars body =>
      if body.hasProbabilistic then .error (.of .nestedProbabilisticEffect)
      else pure [(Number.one, forAll vars body)]
  | when condition body =>
      if body.hasProbabilistic then .error (.of .nestedProbabilisticEffect)
      else pure [(Number.one, when condition body)]
  | skip => pure [(Number.one, skip)]
  | add fact => pure [(Number.one, add fact)]
  | delete fact => pure [(Number.one, delete fact)]
  | assign op fluent value => pure [(Number.one, assign op fluent value)]

def branchesOfList (choices : List (R × List (Effect R))) :
    List (Effect R) → Except (Error R) (List (R × List (Effect R)))
  | [] => pure choices
  | e :: es => do
      let next ← branches e
      branchesOfList (cross choices next) es

def branchesOfOutcomes : List (R × Effect R) → Except (Error R) (List (R × Effect R))
  | [] => pure []
  | (p, e) :: rest => do
      let first ← branches e
      let others ← branchesOfOutcomes rest
      pure (first.map (fun branch => (p * branch.1, branch.2)) ++ others)
end

def creditSkip (extra : R) : List (R × Effect R) → Option (List (R × Effect R))
  | [] => none
  | (p, e) :: rest =>
      if e.isSkip then some ((p + extra, e) :: rest)
      else (creditSkip extra rest).map ((p, e) :: ·)

/-- Drops negligible outcomes; their mass goes to the outcome that changes nothing. -/
def settle (outcomes : List (R × Effect R)) : List (R × Effect R) :=
  let kept := outcomes.filter fun outcome => Number.le Number.epsilon outcome.1
  let dropped := outcomes.filter fun outcome => !Number.le Number.epsilon outcome.1
  let negligible := mass dropped
  if Number.lt Number.zero negligible then
    match creditSkip negligible kept with
    | some credited => credited
    | none =>
        if Number.le Number.epsilon negligible then kept ++ [(negligible, skip)] else kept
  else kept

def expand (e : Effect R) : Except (Error R) (List (R × Effect R)) := e.branches.map settle

end Replan.Effect

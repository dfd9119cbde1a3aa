import Replan.Determinize.AllOutcome
import Replan.Determinize.AlphaCost
import Replan.Determinize.Hindsight
import Replan.Determinize.SingleOutcome

set_option autoImplicit false

namespace Replan

inductive Strategy (R : Type) where
  | allOutcome
  | singleOutcome (criterion : Criterion)
  | alphaCost (pricing : Pricing R)
  | hindsight (method : WheelMethod) (wheelSize : Nat) (transformRewards : Bool)
deriving DecidableEq

namespace Strategy

variable {R : Type} [Number R]

def apply (strategy : Strategy R) (preprocessed : Domain R) : Domain R :=
  match strategy with
  | allOutcome => AllOutcome.determinize preprocessed
  | singleOutcome criterion => SingleOutcome.determinize criterion preprocessed
  | alphaCost pricing => AlphaCost.determinize pricing preprocessed
  | hindsight method _ transformRewards =>
      Hindsight.determinize method transformRewards preprocessed

def complete (strategy : Strategy R) (preprocessed : Domain R) (p : Problem R) (dice : Dice R) :
    Problem R × Dice R :=
  match strategy with
  | hindsight method wheelSize _ => Hindsight.drawWheel method wheelSize preprocessed p dice
  | _ => (p, dice)

end Strategy

structure Versions (R : Type) where
  given : Domain R
  preprocessed : Domain R
  determinized : Domain R

namespace Versions

variable {R : Type} [Number R]

def ofDomain (strategy : Strategy R) (d : Domain R) : Except (Error R) (Versions R) := do
  let preprocessed ← d.preprocess
  pure ⟨d, preprocessed, strategy.apply preprocessed⟩

end Versions

structure OutcomeTrace (R : Type) where
  outcome : Nat
  probability : R
  base : Ground
deriving DecidableEq

structure Determinizer (R : Type) where
  strategy : Strategy R
  dice : Dice R
  current : Option (Versions R)

namespace Determinizer

variable {R : Type}

def ofDice (strategy : Strategy R) (dice : Dice R) : Determinizer R := ⟨strategy, dice, none⟩

def versions (t : Determinizer R) : Except (Error R) (Versions R) :=
  match t.current with
  | none => .error (.of .domainNotSet)
  | some versions => .ok versions

def baseVocabulary (t : Determinizer R) : Except (Error R) (List String) :=
  t.versions.map fun versions => versions.given.predicateNames

variable [Number R]

def setDomain (t : Determinizer R) (d : Domain R) : Except (Error R) (Determinizer R) := do
  let versions ← Versions.ofDomain t.strategy d
  pure { t with current := some versions }

def classicalValues (d : Domain R) (values : List (Ground × R)) : List (Ground × R) :=
  let rewardless := Sorted.drop rewardAtom.ground values
  if d.usesCosts && (Sorted.get? totalCostAtom.ground rewardless).isNone then
    Sorted.put totalCostAtom.ground Number.zero rewardless
  else rewardless

def classicalProblem (d : Domain R) (p : Problem R) : Problem R :=
  { p with
    domain := d
    init := { p.init with values := classicalValues d p.init.values }
    goal :=
      { p.goal with
        reward := none
        metric := if d.usesCosts then some Metric.minimizeCost else none } }

def determinize (t : Determinizer R) (p : Problem R) :
    Except (Error R) (Problem R × Determinizer R) :=
  t.versions.map fun versions =>
    let (result, dice) := t.strategy.complete versions.preprocessed
      (classicalProblem versions.determinized p) t.dice
    (result, { t with dice })

/-- Traces a step of a classical plan. Actions without a recorded origin are their own base. -/
def trace (t : Determinizer R) (step : Ground) : Except (Error R) (OutcomeTrace R) := do
  let versions ← t.versions
  match versions.determinized.action? step.name with
  | none => throw (.of (.undefinedAction step.name))
  | some variant =>
      match variant.origin with
      | none => pure ⟨0, Number.one, step⟩
      | some origin =>
          if step.args.length < origin.baseArity then
            throw (.of (.arityMismatch step.name variant.parameters.length step.args.length))
          else
            pure ⟨origin.outcome, origin.probability,
              ⟨origin.base, step.args.take origin.baseArity⟩⟩

def tracePlanFrom (t : Determinizer R) (probability : R) :
    List Ground → Except (Error R) (R × List Ground)
  | [] => pure (probability, [])
  | step :: rest => do
      let traced ← t.trace step
      let (total, base) ← tracePlanFrom t (probability * traced.probability) rest
      pure (total, traced.base :: base)

/-- The plan over base actions, and the probability that every step has the outcome that the plan
commits to. -/
def tracePlan (t : Determinizer R) (plan : List Ground) : Except (Error R) (R × List Ground) :=
  t.tracePlanFrom Number.one plan

def successProbability (t : Determinizer R) (plan : List Ground) : Except (Error R) R :=
  (t.tracePlan plan).map Prod.fst

end Determinizer

end Replan

import Replan.Query

set_option autoImplicit false

namespace Replan

inductive Direction where
  | minimize | maximize
deriving DecidableEq, Inhabited

def Direction.keyword : Direction → String
  | .minimize => "minimize"
  | .maximize => "maximize"

structure Metric (R : Type) where
  direction : Direction
  expression : Query R

def Metric.minimizeCost {R : Type} : Metric R := ⟨.minimize, .fluent totalCostAtom⟩

structure Goal (R : Type) where
  query : Query R
  reward : Option R
  metric : Option (Metric R)

namespace Goal

variable {R : Type} [Number R]

def holds (goal : Goal R) (s : State R) : Bool := goal.query.holds s

def collect (goal : Goal R) (before after : State R) : State R :=
  match goal.reward with
  | none => after
  | some reward =>
      if !goal.holds before && goal.holds after then { after with reward := after.reward + reward }
      else after

end Goal

end Replan

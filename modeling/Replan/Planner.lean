import Replan.Plan
import Replan.Problem

set_option autoImplicit false

namespace Replan

structure PlanReport where
  plan : Option Plan
  timedOut : Bool
  wallTime : Nat
deriving DecidableEq, Inhabited

/-- A planner that may remember something from call to call. A time limit is in nanoseconds. -/
structure Planner (R : Type) (σ : Type) where
  solve : σ → Problem R → Option Nat → PlanReport × σ

structure PlannerCall (R : Type) where
  problem : Problem R
  limit : Option Nat
  report : PlanReport

namespace Planner

variable {R : Type} {σ : Type}

def scripted (search : Problem R → Option Plan) : Planner R (List PlanReport) where
  solve
    | [], p, _ => (⟨search p, false, 0⟩, [])
    | report :: rest, _, _ => (report, rest)

def recorded (planner : Planner R σ) : Planner R (σ × List (PlannerCall R)) where
  solve memory p limit :=
    let (report, next) := planner.solve memory.1 p limit
    (report, (next, memory.2 ++ [⟨p, limit, report⟩]))

end Planner

end Replan

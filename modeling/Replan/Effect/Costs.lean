import Replan.Effect.Simplify

set_option autoImplicit false

namespace Replan.Effect

variable {R : Type}

mutual
def mapAssignments (f : AssignOp → Atom → Query R → Effect R) : Effect R → Effect R
  | skip => skip
  | add fact => add fact
  | delete fact => delete fact
  | conj parts => conj (mapAssignmentsList f parts)
  | forAll vars body => forAll vars (mapAssignments f body)
  | when condition body => when condition (mapAssignments f body)
  | assign op fluent value => f op fluent value
  | probabilistic outcomes => probabilistic (mapAssignmentsOutcomes f outcomes)

def mapAssignmentsList (f : AssignOp → Atom → Query R → Effect R) :
    List (Effect R) → List (Effect R)
  | [] => []
  | e :: es => mapAssignments f e :: mapAssignmentsList f es

def mapAssignmentsOutcomes (f : AssignOp → Atom → Query R → Effect R) :
    List (R × Effect R) → List (R × Effect R)
  | [] => []
  | (p, e) :: rest => (p, mapAssignments f e) :: mapAssignmentsOutcomes f rest
end

def cost (op : AssignOp) (value : Query R) : Effect R := assign op totalCostAtom value

def rewardAsCost (op : AssignOp) (fluent : Atom) (value : Query R) : Effect R :=
  if fluent.same rewardAtom then
    match op with
    | .increase => cost .decrease value
    | .decrease => cost .increase value
    | _ => skip
  else assign op fluent value

/-- Earning reward becomes paying negative cost and losing reward becomes paying cost. Other
assignments of reward are dropped. -/
def rewardsToCosts (e : Effect R) : Effect R := e.mapAssignments rewardAsCost

def unlessOf (dropped : Atom) (op : AssignOp) (fluent : Atom) (value : Query R) : Effect R :=
  if fluent.same dropped then skip else assign op fluent value

def withoutRewards (e : Effect R) : Effect R := e.mapAssignments (unlessOf rewardAtom)

def withoutCosts (e : Effect R) : Effect R := e.mapAssignments (unlessOf totalCostAtom)

variable [Number R]

def scaledCost (factor : R) (op : AssignOp) (fluent : Atom) (value : Query R) : Effect R :=
  match op with
  | .increase | .decrease =>
      if fluent.same totalCostAtom then
        cost op (Query.arithmetic .mul (.constant factor) value).simplify
      else assign op fluent value
  | _ => assign op fluent value

def scaleCosts (factor : R) (e : Effect R) : Effect R := e.mapAssignments (scaledCost factor)

def addCost (offset : R) (e : Effect R) : Effect R :=
  if Number.isZero offset then e else (conj [e, cost .increase (.constant offset)]).simplify

end Replan.Effect

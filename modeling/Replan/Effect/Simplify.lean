import Replan.Effect

set_option autoImplicit false

namespace Replan.Effect

variable {R : Type} [Number R]

def conjuncts : Effect R → List (Effect R)
  | skip => []
  | conj parts => parts
  | e => [e]

def conjoin (parts : List (Effect R)) : Effect R :=
  match parts.flatMap conjuncts with
  | [] => skip
  | [e] => e
  | flat => conj flat

def quantify (vars : List Term) (body : Effect R) : Effect R :=
  if body.isSkip then skip else forAll vars body

def guard (condition : Query R) (body : Effect R) : Effect R :=
  if body.isSkip || condition.isFalse then skip
  else if condition.isAlways then body
  else when condition body

def set (op : AssignOp) (fluent : Atom) (value : Query R) : Effect R :=
  match op with
  | .assign => assign op fluent value
  | .increase | .decrease =>
      if value.isConstant Number.zero then skip else assign op fluent value
  | .scaleUp | .scaleDown =>
      if value.isConstant Number.one then skip else assign op fluent value

def choose (outcomes : List (R × Effect R)) : Effect R :=
  if outcomes.all fun outcome => outcome.2.isSkip then skip
  else match outcomes with
    | [(p, e)] =>
        if Number.le (Number.one - Number.epsilon) p then e else probabilistic outcomes
    | _ => probabilistic outcomes

mutual
def simplify : Effect R → Effect R
  | skip => skip
  | add fact => add fact
  | delete fact => delete fact
  | conj parts => conjoin (simplifyList parts)
  | forAll vars body => quantify vars (simplify body)
  | when condition body => guard condition.simplify (simplify body)
  | assign op fluent value => set op fluent value.simplify
  | probabilistic outcomes => choose (simplifyOutcomes outcomes)

def simplifyList : List (Effect R) → List (Effect R)
  | [] => []
  | e :: es => simplify e :: simplifyList es

def simplifyOutcomes : List (R × Effect R) → List (R × Effect R)
  | [] => []
  | (p, e) :: rest =>
      if Number.le Number.epsilon p then (p, simplify e) :: simplifyOutcomes rest
      else simplifyOutcomes rest
end

def isEmpty (e : Effect R) : Bool := e.simplify.isSkip

end Replan.Effect

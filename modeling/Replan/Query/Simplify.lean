import Replan.Query

set_option autoImplicit false

namespace Replan.Query

variable {R : Type} [Number R]

def isConstant (x : R) : Query R → Bool
  | constant y => Number.eq y x
  | _ => false

def combine (op : ArithmeticOp) (left right : Query R) : Query R :=
  match op, left, right with
  | _, constant x, constant y => constant (op.apply x y)
  | .mul, _, _ =>
      if isConstant Number.zero left || isConstant Number.zero right then constant Number.zero
      else if isConstant Number.one left then right
      else if isConstant Number.one right then left
      else arithmetic op left right
  | .add, _, _ =>
      if isConstant Number.zero left then right
      else if isConstant Number.zero right then left
      else arithmetic op left right
  | .sub, _, _ => if isConstant Number.zero right then left else arithmetic op left right
  | .div, _, _ => arithmetic op left right

def compare (op : Comparison) : Query R → Query R → Query R
  | constant x, constant y => if op.apply x y then always else falsity
  | left, right => comparison op left right

def conjuncts : Query R → List (Query R)
  | always => []
  | conj parts => parts
  | q => [q]

def disjuncts : Query R → List (Query R)
  | disj parts => parts
  | q => [q]

def conjoin (parts : List (Query R)) : Query R :=
  if parts.any isFalse then falsity
  else match parts.flatMap conjuncts with
    | [] => always
    | [q] => q
    | flat => conj flat

def disjoin (parts : List (Query R)) : Query R :=
  if parts.any isAlways then always
  else match parts.flatMap disjuncts with
    | [q] => q
    | flat => disj flat

def negate : Query R → Query R
  | always => falsity
  | disj [] => always
  | neg body => body
  | q => neg q

def entail (premise conclusion : Query R) : Query R :=
  if premise.isAlways then conclusion
  else if conclusion.isAlways || premise.isFalse then always
  else imply premise conclusion

def quantify (quantifier : Query R → Query R) (body : Query R) : Query R :=
  if body.isAlways then always else quantifier body

mutual
def simplify : Query R → Query R
  | always => always
  | fact a => fact a
  | fluent a => fluent a
  | constant x => constant x
  | arithmetic op left right => combine op (simplify left) (simplify right)
  | comparison op left right => compare op (simplify left) (simplify right)
  | conj parts => conjoin (simplifyList parts)
  | disj parts => disjoin (simplifyList parts)
  | neg body => negate (simplify body)
  | imply premise conclusion => entail (simplify premise) (simplify conclusion)
  | forAll vars body => quantify (forAll vars) (simplify body)
  | forSome vars body => quantify (forSome vars) (simplify body)

def simplifyList : List (Query R) → List (Query R)
  | [] => []
  | q :: qs => simplify q :: simplifyList qs
end

def isEmpty (q : Query R) : Bool := q.simplify.isAlways

end Replan.Query

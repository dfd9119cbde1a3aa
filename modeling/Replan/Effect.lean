import Replan.Error
import Replan.Query.Simplify

set_option autoImplicit false

namespace Replan

inductive AssignOp where
  | assign | increase | decrease | scaleUp | scaleDown
deriving DecidableEq, Inhabited

namespace AssignOp

def apply {R : Type} [Number R] (op : AssignOp) (current value : R) : R :=
  match op with
  | assign => value
  | increase => current + value
  | decrease => current - value
  | scaleUp => current * value
  | scaleDown => current / value

def keyword : AssignOp → String
  | assign => "assign"
  | increase => "increase"
  | decrease => "decrease"
  | scaleUp => "scale-up"
  | scaleDown => "scale-down"

end AssignOp

/-- An effect of an action. The probabilities of a probabilistic effect sum to at most one; the
missing mass is an outcome that changes nothing. -/
inductive Effect (R : Type) where
  | skip
  | add (fact : Atom)
  | delete (fact : Atom)
  | conj (parts : List (Effect R))
  | forAll (vars : List Term) (body : Effect R)
  | when (condition : Query R) (body : Effect R)
  | assign (op : AssignOp) (fluent : Atom) (value : Query R)
  | probabilistic (outcomes : List (R × Effect R))
deriving Inhabited

structure Changes (R : Type) where
  adds : List Ground
  deletes : List Ground
  assignments : List (AssignOp × Ground × R)

namespace Changes

variable {R : Type}

def none : Changes R := ⟨[], [], []⟩

def append (a b : Changes R) : Changes R :=
  ⟨a.adds ++ b.adds, a.deletes ++ b.deletes, a.assignments ++ b.assignments⟩

variable [Number R]

def assignIn (s : State R) (change : AssignOp × Ground × R) : State R :=
  s.setValue change.2.1 (change.1.apply (s.value change.2.1) change.2.2)

def applyTo (c : Changes R) (s : State R) : State R :=
  c.assignments.foldl assignIn (c.adds.foldl State.add (c.deletes.foldl State.delete s))

end Changes

namespace Effect

variable {R : Type}

def isSkip : Effect R → Bool
  | skip => true
  | _ => false

mutual
def bind (σ : Substitution) : Effect R → Effect R
  | skip => skip
  | add fact => add (fact.bind σ)
  | delete fact => delete (fact.bind σ)
  | conj parts => conj (bindList σ parts)
  | forAll vars body => forAll vars (bind (σ.shadow vars) body)
  | when condition body => when (condition.bind σ) (bind σ body)
  | assign op fluent value => assign op (fluent.bind σ) (value.bind σ)
  | probabilistic outcomes => probabilistic (bindOutcomes σ outcomes)

def bindList (σ : Substitution) : List (Effect R) → List (Effect R)
  | [] => []
  | e :: es => bind σ e :: bindList σ es

def bindOutcomes (σ : Substitution) : List (R × Effect R) → List (R × Effect R)
  | [] => []
  | (p, e) :: rest => (p, bind σ e) :: bindOutcomes σ rest
end

mutual
def nodes : Effect R → List (Effect R)
  | skip => [skip]
  | add fact => [add fact]
  | delete fact => [delete fact]
  | conj parts => conj parts :: nodesList parts
  | forAll vars body => forAll vars body :: nodes body
  | when condition body => when condition body :: nodes body
  | assign op fluent value => [assign op fluent value]
  | probabilistic outcomes => probabilistic outcomes :: nodesOutcomes outcomes

def nodesList : List (Effect R) → List (Effect R)
  | [] => []
  | e :: es => nodes e ++ nodesList es

def nodesOutcomes : List (R × Effect R) → List (Effect R)
  | [] => []
  | (_, e) :: rest => nodes e ++ nodesOutcomes rest
end

def changedFact? : Effect R → Option String
  | add fact => some fact.name
  | delete fact => some fact.name
  | _ => none

def assignedFluent? : Effect R → Option String
  | assign _ fluent _ => some fluent.name
  | _ => none

def isAddition : Effect R → Bool
  | add _ => true
  | _ => false

def isProbabilistic : Effect R → Bool
  | probabilistic _ => true
  | _ => false

def modifiedPredicates (e : Effect R) : List String :=
  Sorted.ofList (e.nodes.filterMap changedFact?)

def modifiedFunctions (e : Effect R) : List String :=
  Sorted.ofList (e.nodes.filterMap assignedFluent?)

def countAdditions (e : Effect R) : Nat := e.nodes.countP isAddition

def hasProbabilistic (e : Effect R) : Bool := e.nodes.any isProbabilistic

variable [Number R]

def mass (outcomes : List (R × Effect R)) : R := Number.sum (outcomes.map Prod.fst)

def isProbability (p : R) : Bool :=
  Number.le Number.zero p && Number.le p (Number.one + Number.epsilon)

/-- The probabilistic effect with the given outcomes, refused if a probability lies outside of the
unit interval or all of them together exceed one. -/
def probabilistic? (outcomes : List (R × Effect R)) : Except (Error R) (Effect R) :=
  match outcomes.find? fun outcome => !isProbability outcome.1 with
  | some outcome => .error (.of (.probability outcome.1))
  | none =>
      if Number.lt (Number.one + Number.epsilon) (mass outcomes) then
        .error (.of (.probabilityMass (mass outcomes)))
      else .ok (probabilistic outcomes)

mutual
/-- The changes that the effect makes in `s` after the given substitutions have been carried out,
first to last. A probabilistic effect that is reached has to be resolved before. -/
def changesUnder (s : State R) (σs : List Substitution) : Effect R → Except (Error R) (Changes R)
  | skip => .ok .none
  | add fact => .ok ⟨[(fact.bindAll σs).ground], [], []⟩
  | delete fact => .ok ⟨[], [(fact.bindAll σs).ground], []⟩
  | conj parts => changesOfList s σs parts
  | forAll vars body =>
      (s.world.bindings vars).foldlM
        (fun changes β => do
          let more ← changesUnder s (σs.map (·.shadow vars) ++ [β]) body
          pure (changes.append more))
        Changes.none
  | when condition body =>
      if (condition.evalUnder s σs).asBool then changesUnder s σs body else .ok .none
  | assign op fluent value =>
      .ok ⟨[], [], [(op, (fluent.bindAll σs).ground, (value.evalUnder s σs).asNumber)]⟩
  | probabilistic _ => .error (.of .unresolvedProbabilisticEffect)

def changesOfList (s : State R) (σs : List Substitution) :
    List (Effect R) → Except (Error R) (Changes R)
  | [] => .ok .none
  | e :: es => do
      let first ← changesUnder s σs e
      let rest ← changesOfList s σs es
      pure (first.append rest)
end

def apply (e : Effect R) (s : State R) : Except (Error R) (State R) :=
  (e.changesUnder s []).map fun changes => changes.applyTo s

mutual
def same : Effect R → Effect R → Bool
  | skip, skip => true
  | add a, add b => a.same b
  | delete a, delete b => a.same b
  | conj es, conj es' => sameList es es'
  | forAll vs e, forAll vs' e' => Term.sameList vs vs' && same e e'
  | when q e, when q' e' => q.same q' && same e e'
  | assign op f q, assign op' f' q' => op == op' && f.same f' && q.same q'
  | probabilistic os, probabilistic os' => sameOutcomes os os'
  | _, _ => false

def sameList : List (Effect R) → List (Effect R) → Bool
  | [], [] => true
  | e :: es, e' :: es' => same e e' && sameList es es'
  | _, _ => false

def sameOutcomes : List (R × Effect R) → List (R × Effect R) → Bool
  | [], [] => true
  | (p, e) :: rest, (p', e') :: rest' => Number.eq p p' && same e e' && sameOutcomes rest rest'
  | _, _ => false
end

end Effect

end Replan

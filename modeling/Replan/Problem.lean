import Replan.Domain

set_option autoImplicit false

namespace Replan

structure Init (R : Type) where
  facts : List Ground
  values : List (Ground × R)

structure Problem (R : Type) where
  name : String
  domain : Domain R
  objects : List Term
  init : Init R
  goal : Goal R

namespace Problem

variable {R : Type}

def world (p : Problem R) : Universe :=
  Universe.ofObjects (p.domain.constants ++ p.objects) p.domain.types

def withDomain (p : Problem R) (d : Domain R) : Problem R := { p with domain := d }

def ground (p : Problem R) (step : Ground) : Except (Error R) (Action R) :=
  match p.domain.action? step.name with
  | none => .error (.of (.undefinedAction step.name))
  | some a => a.ground step.args

def groundActions (p : Problem R) : List (Action R) :=
  let world := p.world
  p.domain.actions.flatMap fun a => (world.bindings a.parameters).map fun σ => a.bind σ

variable [Number R]

def initialState (p : Problem R) : State R := State.ofFacts p.init.facts p.init.values p.world

/-- The same problem started in `s`. The cost starts again at zero; the reward is kept. -/
def anchoredAt (p : Problem R) (s : State R) : Problem R :=
  let withCost :=
    if p.domain.usesCosts then Sorted.put totalCostAtom.ground Number.zero s.fluents else s.fluents
  let values :=
    if p.domain.declaresFunction rewardAtom.name then
      Sorted.put rewardAtom.ground s.reward withCost
    else withCost
  { p with init := ⟨s.facts, values⟩ }

def isGoal (p : Problem R) (s : State R) : Bool := p.goal.holds s

def applicableActions (p : Problem R) (s : State R) : List (Action R) :=
  p.groundActions.filter fun a => a.isApplicable s

def sameMetric : Option (Metric R) → Option (Metric R) → Bool
  | none, none => true
  | some m, some n => m.direction == n.direction && m.expression.same n.expression
  | _, _ => false

def sameReward : Option R → Option R → Bool
  | none, none => true
  | some x, some y => Number.eq x y
  | _, _ => false

def sameValue (x y : Ground × R) : Bool := x.1 == y.1 && Number.eq x.2 y.2

def same (p q : Problem R) : Bool :=
  p.name == q.name && p.domain.same q.domain && Domain.sameList Term.same p.objects q.objects &&
    p.init.facts == q.init.facts && Domain.sameList sameValue p.init.values q.init.values &&
    p.goal.query.same q.goal.query && sameReward p.goal.reward q.goal.reward &&
    sameMetric p.goal.metric q.goal.metric

def text (p : Problem R) : String :=
  let facts := p.init.facts.map fun fact => " " ++ fact.text
  let values := p.init.values.map fun entry =>
    " (= " ++ entry.1.text ++ " " ++ Number.source entry.2 ++ ")"
  let reward := match p.goal.reward with
    | none => ""
    | some reward => "\n  (:goal-reward " ++ Number.source reward ++ ")"
  let metric := match p.goal.metric with
    | none => ""
    | some metric =>
        "\n  (:metric " ++ metric.direction.keyword ++ " " ++ metric.expression.text ++ ")"
  "(define (problem " ++ p.name ++ ")\n" ++
    "  (:domain " ++ p.domain.name ++ ")\n" ++
    Domain.clause ":objects" (if p.objects.isEmpty then [] else [Term.listText p.objects]) ++
    "  (:init" ++ String.join facts ++ String.join values ++ ")\n" ++
    "  (:goal " ++ p.goal.query.text ++ ")" ++ reward ++ metric ++ ")"

end Problem

end Replan

import Replan.Number
import Replan.Sorted
import Replan.Universe

set_option autoImplicit false

namespace Replan

def totalCostAtom : Atom := ⟨"total-cost", []⟩

def rewardAtom : Atom := ⟨"reward", []⟩

structure State (R : Type) where
  facts : List Ground
  fluents : List (Ground × R)
  totalCost : R
  reward : R
  world : Universe

namespace State

variable {R : Type} [Number R]

def setValue (s : State R) (fluent : Ground) (value : R) : State R :=
  if fluent = totalCostAtom.ground then { s with totalCost := value }
  else if fluent = rewardAtom.ground then { s with reward := value }
  else { s with fluents := Sorted.put fluent value s.fluents }

/-- The state with the given facts and values; values of `total-cost` and `reward` set the totals,
which are zero otherwise. -/
def ofFacts (facts : List Ground) (values : List (Ground × R)) (world : Universe) : State R :=
  values.foldl (fun s entry => s.setValue entry.1 entry.2)
    ⟨Sorted.ofList facts, [], Number.zero, Number.zero, world⟩

def holds (s : State R) (fact : Ground) : Bool :=
  match fact with
  | ⟨"=", [a, b]⟩ => a == b
  | _ => s.facts.contains fact

def value (s : State R) (fluent : Ground) : R :=
  if fluent = totalCostAtom.ground then s.totalCost
  else if fluent = rewardAtom.ground then s.reward
  else (Sorted.get? fluent s.fluents).getD Number.zero

def add (s : State R) (fact : Ground) : State R := { s with facts := Sorted.insert fact s.facts }

def delete (s : State R) (fact : Ground) : State R := { s with facts := Sorted.erase fact s.facts }

def key (s : State R) : List Ground := s.facts

def project (s : State R) (vocabulary : List String) : State R :=
  { s with facts := s.facts.filter fun fact => vocabulary.contains fact.name }

def same (a b : State R) : Bool := a.key == b.key

def text (s : State R) : String :=
  let facts := s.facts.map fun fact => fact.text ++ "\n"
  let fluents := s.fluents.map fun entry =>
    entry.1.text ++ " = " ++ Number.text entry.2 ++ "\n"
  String.join (facts ++ fluents) ++
    "total-cost = " ++ Number.text s.totalCost ++ ", reward = " ++ Number.text s.reward

end State

end Replan

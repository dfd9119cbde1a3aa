import Replan.Determinize.Variant
import Replan.Random.Dice

set_option autoImplicit false

namespace Replan

inductive WheelMethod where
  | shared
  | perAction
deriving DecidableEq, Inhabited

namespace Hindsight

def stepType : String := "hs-step"

def nowName : String := "hs-now"

def nextName : String := "hs-next"

def currentVariable : String := "?hs-t"

def followingVariable : String := "?hs-u"

def stepName (i : Nat) : String := "hs-" ++ toString i

def choiceName (action : String) (outcome : Nat) : String :=
  "hs-" ++ action ++ "-o" ++ toString outcome

def tokenName (method : WheelMethod) (action : String) : String :=
  match method with
  | .shared => nowName
  | .perAction => "hs-" ++ action ++ "-at"

def stepTerm (name : String) : Term := ⟨name, some stepType⟩

def current : Term := Term.untyped currentVariable

def following : Term := Term.untyped followingVariable

def unary (name : String) : Atom := ⟨name, [stepTerm currentVariable]⟩

def binary (name : String) : Atom :=
  ⟨name, [stepTerm currentVariable, stepTerm followingVariable]⟩

variable {R : Type} [Number R]

def settleRewards (transformRewards : Bool) (e : Effect R) : Effect R :=
  if transformRewards then e.rewardsToCosts.simplify else e.withoutRewards.simplify

def onWheel (token choice : String) (a : Action R) : Action R :=
  { a with
    parameters := a.parameters ++ [stepTerm currentVariable, stepTerm followingVariable]
    precondition := Query.simplify (.conj
      [a.precondition, .fact ⟨token, [current]⟩, .fact ⟨nextName, [current, following]⟩,
        .fact ⟨choice, [current]⟩])
    effect := Effect.simplify (.conj
      [a.effect, .delete ⟨token, [current]⟩, .add ⟨token, [following]⟩]) }

def isWheeled (a : Action R) : Bool := a.outcomes.length != 1

def variants (method : WheelMethod) (transformRewards : Bool) (a : Action R) : List (Action R) :=
  a.outcomes.zipIdx.map fun (outcome, i) =>
    let plain := a.variant i outcome.1 (settleRewards transformRewards outcome.2)
    if isWheeled a then onWheel (tokenName method a.name) (choiceName a.name i) plain else plain

def auxiliaryOf (method : WheelMethod) (a : Action R) : List Atom :=
  if isWheeled a then
    let choices := (List.range a.outcomes.length).map fun i => unary (choiceName a.name i)
    match method with
    | .shared => choices
    | .perAction => unary (tokenName method a.name) :: choices
  else []

def declareWheel (method : WheelMethod) (auxiliary : List Atom) (d : Domain R) : Domain R :=
  if auxiliary.isEmpty then d
  else
    let shared := match method with
      | .shared => [unary nowName]
      | .perAction => []
    { d with
      requirements := RequirementSet.union d.requirements [.typing]
      types := d.types.insert stepType "object"
      predicates := d.predicates ++ binary nextName :: shared ++ auxiliary }

def determinize (method : WheelMethod) (transformRewards : Bool) (preprocessed : Domain R) :
    Domain R :=
  let actions := preprocessed.actions.flatMap (variants method transformRewards)
  declareWheel method (preprocessed.actions.flatMap (auxiliaryOf method))
    (preprocessed.classical actions)

def wheeled (preprocessed : Domain R) : List (String × List R) :=
  (preprocessed.actions.filter fun a => 1 < a.outcomes.length).map fun a =>
    (a.name, a.outcomes.map Prod.fst)

def drawSteps (name : String) (probabilities : List R) (dice : Dice R) :
    List String → List Ground × Dice R
  | [] => ([], dice)
  | step :: rest =>
      let (draw, rolled) := dice.roll
      let fact : Ground := ⟨choiceName name (pickOutcome probabilities draw), [step]⟩
      let (facts, last) := drawSteps name probabilities rolled rest
      (fact :: facts, last)

def drawActions (steps : List String) (dice : Dice R) :
    List (String × List R) → List Ground × Dice R
  | [] => ([], dice)
  | (name, probabilities) :: rest =>
      let (facts, rolled) := drawSteps name probabilities dice steps
      let (others, last) := drawActions steps rolled rest
      (facts ++ others, last)

def cycle (size : Nat) : List Ground :=
  (List.range size).map fun k => ⟨nextName, [stepName k, stepName ((k + 1) % size)]⟩

def tokens (method : WheelMethod) (actions : List String) : List Ground :=
  match method with
  | .shared => [⟨nowName, [stepName 0]⟩]
  | .perAction => actions.map fun name => ⟨tokenName method name, [stepName 0]⟩

def drawWheel (method : WheelMethod) (wheelSize : Nat) (preprocessed : Domain R) (p : Problem R)
    (dice : Dice R) : Problem R × Dice R :=
  let actions := wheeled preprocessed
  if actions.isEmpty then (p, dice)
  else
    let size := max wheelSize 1
    let steps := (List.range size).map stepName
    let (choices, rolled) := drawActions steps dice actions
    let facts := cycle size ++ tokens method (actions.map Prod.fst) ++ choices
    ({ p with
        objects := p.objects ++ steps.map stepTerm
        init := { p.init with
          facts := facts.foldl (fun set fact => Sorted.insert fact set) p.init.facts } },
      rolled)

end Hindsight

end Replan

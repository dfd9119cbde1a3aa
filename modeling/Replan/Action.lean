import Replan.Effect.Text
import Replan.Goal

set_option autoImplicit false

namespace Replan

/-- Where a determinized action comes from: the base action, the outcome it commits to, and the
probability of that outcome. The base action's own parameters lead; others may follow them. -/
structure Origin (R : Type) where
  base : String
  outcome : Nat
  probability : R
  baseArity : Nat
deriving DecidableEq

structure Action (R : Type) where
  name : String
  parameters : List Term
  precondition : Query R
  effect : Effect R
  origin : Option (Origin R)

namespace Action

variable {R : Type}

def bind (σ : Substitution) (a : Action R) : Action R :=
  { a with
    parameters := a.parameters.map (Term.bind σ)
    precondition := a.precondition.bind σ
    effect := a.effect.bind σ }

def assignment (a : Action R) (args : List String) : Substitution :=
  Substitution.ofPairs ((a.parameters.map Term.name).zip args)

def ground (a : Action R) (args : List String) : Except (Error R) (Action R) :=
  if args.length = a.parameters.length then .ok (a.bind (a.assignment args))
  else .error (.of (.arityMismatch a.name a.parameters.length args.length))

def step (a : Action R) : Ground := ⟨a.name, a.parameters.map Term.name⟩

variable [Number R]

def isApplicable (a : Action R) (s : State R) : Bool := a.precondition.holds s

def apply (a : Action R) (s : State R) (goal : Option (Goal R)) :
    Except (Error R) (Option (State R)) :=
  if a.isApplicable s then do
    let next ← a.effect.apply s
    match goal with
    | none => pure (some next)
    | some goal => pure (some (goal.collect s next))
  else pure none

def text (a : Action R) : String :=
  let precondition :=
    if a.precondition.isEmpty then "" else "    :precondition " ++ a.precondition.text ++ "\n"
  "  (:action " ++ a.name ++ "\n" ++
    "    :parameters (" ++ Term.listText a.parameters ++ ")\n" ++
    precondition ++
    "    :effect " ++ a.effect.text ++ ")"

def sameOrigin : Option (Origin R) → Option (Origin R) → Bool
  | none, none => true
  | some x, some y =>
      x.base == y.base && x.outcome == y.outcome && Number.eq x.probability y.probability &&
        x.baseArity == y.baseArity
  | _, _ => false

def same (a b : Action R) : Bool :=
  a.name == b.name && Term.sameList a.parameters b.parameters &&
    a.precondition.same b.precondition && a.effect.same b.effect && sameOrigin a.origin b.origin

end Action

end Replan

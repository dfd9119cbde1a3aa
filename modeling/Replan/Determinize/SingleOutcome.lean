import Replan.Determinize.Variant

set_option autoImplicit false

namespace Replan

inductive Criterion where
  | mostLikely
  | mostAdditions
deriving DecidableEq, Inhabited

namespace SingleOutcome

variable {R : Type} [Number R]

def score (criterion : Criterion) (outcome : R × Effect R) : R :=
  match criterion with
  | .mostLikely => outcome.1
  | .mostAdditions => Number.ofNat outcome.2.countAdditions

def improve (criterion : Criterion) (best : (R × Effect R) × Nat) :
    List ((R × Effect R) × Nat) → (R × Effect R) × Nat
  | [] => best
  | candidate :: rest =>
      if Number.lt (score criterion best.1) (score criterion candidate.1) then
        improve criterion candidate rest
      else improve criterion best rest

/-- The preferred outcome with its index. The first of equally good ones wins. -/
def choose (criterion : Criterion) (outcomes : List (R × Effect R)) :
    Option ((R × Effect R) × Nat) :=
  match outcomes.zipIdx with
  | [] => none
  | first :: rest => some (improve criterion first rest)

def variants (criterion : Criterion) (a : Action R) : List (Action R) :=
  match choose criterion a.outcomes with
  | none => []
  | some ((p, e), i) => [a.variant i p e.withoutRewards.simplify]

def determinize (criterion : Criterion) (preprocessed : Domain R) : Domain R :=
  preprocessed.classical (preprocessed.actions.flatMap (variants criterion))

end SingleOutcome

end Replan

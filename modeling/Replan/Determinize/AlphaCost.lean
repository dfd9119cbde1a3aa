import Replan.Determinize.Variant

set_option autoImplicit false

namespace Replan

/-- How improbability is paid for: own costs are scaled by `alpha`, every step pays `base`, and the
price of the likelihood may be rounded to decimal places. -/
structure Pricing (R : Type) where
  alpha : R
  base : R
  round : Option Nat
deriving DecidableEq

namespace AlphaCost

variable {R : Type} [Number R]

def exponent (places : Nat) : Int := Int.bmod places UInt32.size

def likelihoodCost (pricing : Pricing R) (probability : R) : R :=
  let cost := pricing.base - Number.ln probability
  match pricing.round with
  | none => cost
  | some places =>
      let scale := Number.power (Number.ofNat 10) (exponent places)
      Number.round (cost * scale) / scale

def priced (pricing : Pricing R) (e : Effect R) : Effect R :=
  (e.rewardsToCosts.scaleCosts pricing.alpha).simplify

def isPure (e : Effect R) : Bool := e.withoutCosts.isEmpty

def variants (pricing : Pricing R) (a : Action R) : List (Action R) :=
  a.outcomes.zipIdx.filterMap fun (outcome, i) =>
    let effect := priced pricing outcome.2
    if isPure effect then none
    else some (a.variant i outcome.1 (effect.addCost (likelihoodCost pricing outcome.1)))

def determinize (pricing : Pricing R) (preprocessed : Domain R) : Domain R :=
  preprocessed.classical (preprocessed.actions.flatMap (variants pricing))

end AlphaCost

end Replan

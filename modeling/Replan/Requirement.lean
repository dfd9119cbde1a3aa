set_option autoImplicit false

namespace Replan

inductive Requirement where
  | strips
  | typing
  | negativePreconditions
  | disjunctivePreconditions
  | equality
  | existentialPreconditions
  | universalPreconditions
  | quantifiedPreconditions
  | conditionalEffects
  | adl
  | objectFluents
  | numericFluents
  | actionCosts
  | probabilisticEffects
  | rewards
deriving DecidableEq, Inhabited

abbrev RequirementSet := List Requirement

namespace Requirement

def all : RequirementSet :=
  [strips, typing, negativePreconditions, disjunctivePreconditions, equality,
    existentialPreconditions, universalPreconditions, quantifiedPreconditions, conditionalEffects,
    adl, objectFluents, numericFluents, actionCosts, probabilisticEffects, rewards]

def keyword : Requirement → String
  | strips => ":strips"
  | typing => ":typing"
  | negativePreconditions => ":negative-preconditions"
  | disjunctivePreconditions => ":disjunctive-preconditions"
  | equality => ":equality"
  | existentialPreconditions => ":existential-preconditions"
  | universalPreconditions => ":universal-preconditions"
  | quantifiedPreconditions => ":quantified-preconditions"
  | conditionalEffects => ":conditional-effects"
  | adl => ":adl"
  | objectFluents => ":fluents"
  | numericFluents => ":numeric-fluents"
  | actionCosts => ":action-costs"
  | probabilisticEffects => ":probabilistic-effects"
  | rewards => ":rewards"

def ofKeyword? (word : String) : Option Requirement := all.find? fun r => r.keyword == word

def closure : Requirement → RequirementSet
  | adl =>
      [strips, typing, negativePreconditions, disjunctivePreconditions, equality,
        existentialPreconditions, universalPreconditions, quantifiedPreconditions,
        conditionalEffects, adl]
  | quantifiedPreconditions =>
      [existentialPreconditions, universalPreconditions, quantifiedPreconditions]
  | r => [r]

def mdpFeatures : RequirementSet := [probabilisticEffects, rewards]

end Requirement

namespace RequirementSet

def ofList (rs : List Requirement) : RequirementSet := Requirement.all.filter (rs.contains ·)

def union (a b : RequirementSet) : RequirementSet := ofList (a ++ b)

def diff (a b : RequirementSet) : RequirementSet := a.filter fun r => !b.contains r

def disjoint (a b : RequirementSet) : Bool := !a.any fun r => b.contains r

def closure (a : RequirementSet) : RequirementSet := ofList (a.flatMap Requirement.closure)

def text (a : RequirementSet) : String := " ".intercalate (a.map Requirement.keyword)

end RequirementSet

end Replan

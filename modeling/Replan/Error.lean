import Replan.Number
import Replan.Requirement

set_option autoImplicit false

namespace Replan

structure Span where
  start : Nat
  stop : Nat
  inProblem : Bool
deriving DecidableEq, Inhabited

def Span.nowhere : Span := ⟨0, 0, false⟩

inductive ErrorKind (R : Type) where
  | malformed
  | expected (word : String)
  | parenthesis
  | unclosedParenthesis (opened : Nat)
  | expectedName
  | expectedVariable
  | expectedNumber
  | expectedTypedList
  | malformedQuery
  | malformedEffect
  | expectedAction
  | trailingInput
  | unsetRequirement (oneOf : RequirementSet)
  | mismatchedDomain (name : String)
  | duplicateType (name : String)
  | duplicateObject (name : String)
  | duplicatePredicate (name : String)
  | firstDefinedHere
  | undefinedType (name : String)
  | undefinedAction (name : String)
  | arityMismatch (name : String) (expects found : Nat)
  | probabilityMass (mass : R)
  | probability (p : R)
  | nestedProbabilisticEffect
  | unresolvedProbabilisticEffect
  | inapplicableAction (action : String)
  | noProblem
  | domainNotSet
  | noShareOfTime
deriving DecidableEq

namespace ErrorKind

variable {R : Type} [Number R]

def quoted (word : String) : String := "`" ++ word ++ "`"

def message : ErrorKind R → String
  | malformed => "syntax error"
  | expected word => "expected " ++ quoted word
  | parenthesis => "expected `(`"
  | unclosedParenthesis _ => "unclosed parenthesis"
  | expectedName => "expected a name"
  | expectedVariable => "expected a variable"
  | expectedNumber => "expected a number"
  | expectedTypedList => "expected a typed list"
  | malformedQuery => "malformed goal description"
  | malformedEffect => "malformed effect"
  | expectedAction => "expected an action definition"
  | trailingInput => "trailing input after definition"
  | unsetRequirement oneOf => "requires one of " ++ RequirementSet.text oneOf
  | mismatchedDomain name => "problem is defined for domain " ++ quoted name
  | duplicateType name => "type " ++ quoted name ++ " is defined more than once"
  | duplicateObject name => "object " ++ quoted name ++ " is defined more than once"
  | duplicatePredicate name => "predicate " ++ quoted name ++ " is defined more than once"
  | firstDefinedHere => "first defined here"
  | undefinedType name => "type " ++ quoted name ++ " is not defined"
  | undefinedAction name => "action " ++ quoted name ++ " is not defined"
  | arityMismatch name expects found =>
      quoted name ++ " expects " ++ toString expects ++ " argument(s), got " ++ toString found
  | probabilityMass mass => "probabilistic outcomes sum to " ++ Number.text mass ++ ", more than 1"
  | probability p => "probability " ++ Number.text p ++ " is outside of [0, 1]"
  | nestedProbabilisticEffect =>
      "probabilistic effect nested under forall or when cannot be expanded"
  | unresolvedProbabilisticEffect =>
      "probabilistic effect must be expanded before it is applied"
  | inapplicableAction action => "action " ++ action ++ " is not applicable"
  | noProblem => "simulator has no problem loaded"
  | domainNotSet => "determinizer has no domain set"
  | noShareOfTime => "the time left cannot be shared among the calls left"

end ErrorKind

structure Diagnostic (R : Type) where
  kind : ErrorKind R
  span : Span
deriving DecidableEq

structure Error (R : Type) extends Diagnostic R where
  cause : Option (Diagnostic R)
deriving DecidableEq

namespace Error

variable {R : Type}

def of (kind : ErrorKind R) : Error R := ⟨⟨kind, Span.nowhere⟩, none⟩

def located (kind : ErrorKind R) (span : Span) : Error R := ⟨⟨kind, span⟩, none⟩

end Error

end Replan

import Replan.Source.Lexeme
import Replan.Effect

set_option autoImplicit false

namespace Replan.Source

open Replan.Source.Parser

variable {R : Type} {α : Type}

def fluentRequirements : RequirementSet := [.objectFluents, .numericFluents, .actionCosts, .rewards]

def as (a : α) (p : Parser R Unit) : Parser R α := do
  p
  pure a

def arithmeticOp : Parser R ArithmeticOp :=
  firstOf (as .add (sign '+')) [as .sub (sign '-'), as .mul (sign '*'), as .div (sign '/')]

def comparisonOp : Parser R Comparison :=
  firstOf (as .atMost (keyword "<="))
    [as .atLeast (keyword ">="), as .less (keyword "<"), as .greater (keyword ">"),
      as .equal (keyword "=")]

def assignOp : Parser R AssignOp :=
  firstOf (as .assign (keyword "assign"))
    [as .increase (keyword "increase"), as .decrease (keyword "decrease"),
      as .scaleUp (keyword "scale-up"), as .scaleDown (keyword "scale-down")]

def quantified (w : String) (oneOf : RequirementSet) (body : Parser R α) :
    Parser R (List Term × α) := parens do
  requires oneOf (keyword w)
  cut do
    let vars ← parens (typedList variableName)
    let inner ← body
    pure (vars.map Prod.snd, inner)

variable [Number R]

def expressionWithin : Nat → Parser R (Query R)
  | 0 => missing
  | depth + 1 =>
      firstOf
        (do
          let x ← number
          pure (.constant x))
        [parens do
          let op ← arithmeticOp
          let left ← expressionWithin depth
          let right ← expressionWithin depth
          pure (.arithmetic op left right),
        do
          let a ← requires fluentRequirements atom
          pure (.fluent a)]

def expression : Parser R (Query R) := fun c => expressionWithin (c.rest.length + 1) c

def queryWithin : Nat → Parser R (Query R)
  | 0 => missing
  | depth + 1 =>
      named .malformedQuery <| firstOf
        (as .always emptyParens)
        [parens do
          keyword "and"
          let parts ← cut (many (queryWithin depth))
          pure (if parts.isEmpty then .always else .conj parts),
        parens do
          requires [.disjunctivePreconditions] (keyword "or")
          let parts ← cut (many (queryWithin depth))
          pure (.disj parts),
        parens do
          keyword "not"
          let body ← cut (queryWithin depth)
          pure (.neg body),
        parens do
          requires [.disjunctivePreconditions] (keyword "imply")
          cut do
            let premise ← queryWithin depth
            let conclusion ← queryWithin depth
            pure (.imply premise conclusion),
        do
          let (vars, body) ←
            quantified "forall" [.universalPreconditions] (queryWithin depth)
          pure (.forAll vars body),
        do
          let (vars, body) ←
            quantified "exists" [.existentialPreconditions] (queryWithin depth)
          pure (.forSome vars body),
        parens do
          let op ← comparisonOp
          let left ← expression
          let right ← expression
          pure (.comparison op left right),
        parens do
          keyword "="
          let left ← term
          let right ← term
          pure (.fact ⟨"=", [left, right]⟩),
        do
          let a ← atom
          pure (.fact a)]

def query : Parser R (Query R) := fun c => queryWithin (c.rest.length + 1) c

def distribution (start : Cursor) (outcomes : List (R × Effect R)) : Parser R (Effect R) := fun c =>
  match Effect.probabilistic? outcomes with
  | .ok e => .done e c
  | .error e => .fail { e.toDiagnostic with span := start.spanTo c.offset }

def effectWithin : Nat → Parser R (Effect R)
  | 0 => missing
  | depth + 1 =>
      named .malformedEffect <| firstOf
        (as .skip emptyParens)
        [parens do
          keyword "and"
          let parts ← cut (many (effectWithin depth))
          pure (if parts.isEmpty then .skip else .conj parts),
        do
          let (vars, body) ←
            quantified "forall" [.conditionalEffects] (effectWithin depth)
          pure (.forAll vars body),
        parens do
          requires [.conditionalEffects] (keyword "when")
          cut do
            let condition ← query
            let body ← effectWithin depth
            pure (.when condition body),
        do
          let start ← cursor
          let outcomes ← parens do
            requires [.probabilisticEffects] (keyword "probabilistic")
            cut (many1 do
              let p ← number
              let e ← effectWithin depth
              pure (p, e))
          distribution start outcomes,
        parens do
          keyword "not"
          let fact ← cut atom
          pure (.delete fact),
        parens do
          let op ← requires fluentRequirements assignOp
          let fluent ← cut atom
          let value ← cut expression
          pure (.assign op fluent value),
        do
          let fact ← atom
          pure (.add fact)]

def effect : Parser R (Effect R) := fun c => effectWithin (c.rest.length + 1) c

end Replan.Source

import Replan.Proofs.Effect.Structure
import Replan.Proofs.Query.Structure
import Replan.Proofs.Source.Numerals
import Replan.Effect.Text
import Replan.Source.Formula

set_option autoImplicit false

namespace Replan

open Source

def Source.twoNumbers (l r : String) : Bool :=
  l.toList.head?.any Char.isDigit &&
    match l.toList.dropWhile Char.isDigit with
    | [] => r.toList.head?.any Char.isDigit
    | '-' :: c :: _ => c.isDigit
    | _ => false

namespace Query

variable {R : Type}

def words : List String := ["and", "or", "not", "imply", "forall", "exists"]

attribute [local simp] text Effect.text

inductive FactReads : Atom → Prop where
  | atom (a : Atom) (reads : AtomReads a) (plain : a.name ∉ words) : FactReads a
  | equality (l r : Term) (left : IsTerm l) (right : IsTerm r) (names : twoNumbers l.name r.name = false) :
      FactReads ⟨"=", [l, r]⟩

section Legible

variable (licence : RequirementSet → Prop) (number : R → Prop)

def IsExpression : Query R → Prop
  | fluent a => AtomReads a ∧ licence fluentRequirements
  | constant x => number x
  | arithmetic _ left right => IsExpression left ∧ IsExpression right
  | _ => False

mutual
def Legible : Query R → Prop
  | always => True
  | fact a => FactReads a
  | comparison _ left right => left.IsExpression licence number ∧ right.IsExpression licence number
  | conj parts => parts ≠ [] ∧ LegibleList parts
  | disj parts => licence [.disjunctivePreconditions] ∧ LegibleList parts
  | neg body => Legible body
  | imply premise conclusion => licence [.disjunctivePreconditions] ∧ Legible premise ∧ Legible conclusion
  | forAll vars body => licence [.universalPreconditions] ∧ Declares IsVariable licence vars ∧ Legible body
  | forSome vars body => licence [.existentialPreconditions] ∧ Declares IsVariable licence vars ∧ Legible body
  | fluent _ | constant _ | arithmetic .. => False

def LegibleList : List (Query R) → Prop
  | [] => True
  | q :: qs => Legible q ∧ LegibleList qs
end

theorem legible_list (qs : List (Query R)) :
    LegibleList licence number qs ↔ ∀ q ∈ qs, q.Legible licence number := by
  induction qs with
  | nil => simp [LegibleList]
  | cons q qs ih => rw [LegibleList, ih, List.forall_mem_cons]

end Legible

mutual
def numbers : Query R → List R
  | always => []
  | fact _ => []
  | fluent _ => []
  | constant x => [x]
  | arithmetic _ left right => numbers left ++ numbers right
  | comparison _ left right => numbers left ++ numbers right
  | conj parts => numbersList parts
  | disj parts => numbersList parts
  | neg body => numbers body
  | imply premise conclusion => numbers premise ++ numbers conclusion
  | forAll _ body => numbers body
  | forSome _ body => numbers body

def numbersList : List (Query R) → List R
  | [] => []
  | q :: qs => numbers q ++ numbersList qs
end

mutual
def bound : Query R → List Term
  | always => []
  | fact _ => []
  | fluent _ => []
  | constant _ => []
  | arithmetic _ left right => bound left ++ bound right
  | comparison _ left right => bound left ++ bound right
  | conj parts => boundList parts
  | disj parts => boundList parts
  | neg body => bound body
  | imply premise conclusion => bound premise ++ bound conclusion
  | forAll vars body => vars ++ bound body
  | forSome vars body => vars ++ bound body

def boundList : List (Query R) → List Term
  | [] => []
  | q :: qs => bound q ++ boundList qs
end

theorem numbers_list (qs : List (Query R)) : numbersList qs = qs.flatMap numbers := by
  induction qs with
  | nil => rfl
  | cons q qs ih => rw [numbersList, ih, List.flatMap_cons]

theorem bound_list (qs : List (Query R)) : boundList qs = qs.flatMap bound := by
  induction qs with
  | nil => rfl
  | cons q qs ih => rw [boundList, ih, List.flatMap_cons]

variable [Number R]

mutual
def asRead : Query R → Query R
  | always => always
  | fact a => fact a
  | fluent a => fluent a
  | constant x => constant (Number.unsigned x)
  | arithmetic op left right => arithmetic op (asRead left) (asRead right)
  | comparison op left right => comparison op (asRead left) (asRead right)
  | conj parts => conj (asReadList parts)
  | disj parts => disj (asReadList parts)
  | neg body => neg (asRead body)
  | imply premise conclusion => imply (asRead premise) (asRead conclusion)
  | forAll vars body => forAll (Term.spellOut vars) (asRead body)
  | forSome vars body => forSome (Term.spellOut vars) (asRead body)

def asReadList : List (Query R) → List (Query R)
  | [] => []
  | q :: qs => asRead q :: asReadList qs
end

theorem as_read_list (qs : List (Query R)) : asReadList qs = qs.map asRead := by
  induction qs with
  | nil => rfl
  | cons q qs ih => rw [asReadList, ih, List.map_cons]

theorem text_list (qs : List (Query R)) :
    (listText qs).toList = qs.flatMap fun q => ' ' :: q.text.toList := by
  induction qs with
  | nil => rfl
  | cons q qs ih => simp [listText, ih]

end Query

namespace Effect

variable {R : Type}

def words : List String :=
  ["and", "forall", "when", "probabilistic", "not", "assign", "increase", "decrease", "scale-up", "scale-down"]

section Legible

variable [Number R] (licence : RequirementSet → Prop) (number : R → Prop)

mutual
def Legible : Effect R → Prop
  | skip => True
  | add fact => AtomReads fact ∧ fact.name ∉ words
  | delete fact => AtomReads fact
  | conj parts => parts ≠ [] ∧ LegibleList parts
  | forAll vars body => licence [.conditionalEffects] ∧ Declares IsVariable licence vars ∧ Legible body
  | when condition body => licence [.conditionalEffects] ∧ condition.Legible licence number ∧ Legible body
  | assign _ fluent value =>
      licence fluentRequirements ∧ AtomReads fluent ∧ value.IsExpression licence number
  | probabilistic outcomes =>
      licence [.probabilisticEffects] ∧ outcomes ≠ [] ∧ IsDistribution outcomes ∧ LegibleOutcomes outcomes

def LegibleList : List (Effect R) → Prop
  | [] => True
  | e :: es => Legible e ∧ LegibleList es

def LegibleOutcomes : List (R × Effect R) → Prop
  | [] => True
  | (p, e) :: rest => (number p ∧ Legible e) ∧ LegibleOutcomes rest
end

theorem legible_list (es : List (Effect R)) :
    LegibleList licence number es ↔ ∀ e ∈ es, e.Legible licence number := by
  induction es with
  | nil => simp [LegibleList]
  | cons e es ih => rw [LegibleList, ih, List.forall_mem_cons]

theorem legible_outcomes (outcomes : List (R × Effect R)) :
    LegibleOutcomes licence number outcomes ↔
      ∀ outcome ∈ outcomes, number outcome.1 ∧ outcome.2.Legible licence number := by
  induction outcomes with
  | nil => simp [LegibleOutcomes]
  | cons outcome outcomes ih => rw [LegibleOutcomes, ih, List.forall_mem_cons]

end Legible

mutual
def numbers : Effect R → List R
  | skip => []
  | add _ => []
  | delete _ => []
  | conj parts => numbersList parts
  | forAll _ body => numbers body
  | when condition body => condition.numbers ++ numbers body
  | assign _ _ value => value.numbers
  | probabilistic outcomes => numbersOutcomes outcomes

def numbersList : List (Effect R) → List R
  | [] => []
  | e :: es => numbers e ++ numbersList es

def numbersOutcomes : List (R × Effect R) → List R
  | [] => []
  | (p, e) :: rest => (p :: numbers e) ++ numbersOutcomes rest
end

mutual
def bound : Effect R → List Term
  | skip => []
  | add _ => []
  | delete _ => []
  | conj parts => boundList parts
  | forAll vars body => vars ++ bound body
  | when condition body => condition.bound ++ bound body
  | assign _ _ value => value.bound
  | probabilistic outcomes => boundOutcomes outcomes

def boundList : List (Effect R) → List Term
  | [] => []
  | e :: es => bound e ++ boundList es

def boundOutcomes : List (R × Effect R) → List Term
  | [] => []
  | (_, e) :: rest => bound e ++ boundOutcomes rest
end

theorem numbers_list (es : List (Effect R)) : numbersList es = es.flatMap numbers := by
  induction es with
  | nil => rfl
  | cons e es ih => rw [numbersList, ih, List.flatMap_cons]

theorem bound_list (es : List (Effect R)) : boundList es = es.flatMap bound := by
  induction es with
  | nil => rfl
  | cons e es ih => rw [boundList, ih, List.flatMap_cons]

theorem bound_outcomes (outcomes : List (R × Effect R)) :
    boundOutcomes outcomes = outcomes.flatMap fun outcome => outcome.2.bound := by
  induction outcomes with
  | nil => rfl
  | cons outcome outcomes ih => rw [boundOutcomes, ih, List.flatMap_cons]

variable [Number R]

mutual
def asRead : Effect R → Effect R
  | skip => skip
  | add fact => add fact
  | delete fact => delete fact
  | conj parts => conj (asReadList parts)
  | forAll vars body => forAll (Term.spellOut vars) (asRead body)
  | when condition body => when condition.asRead (asRead body)
  | assign op fluent value => assign op fluent value.asRead
  | probabilistic outcomes => probabilistic (asReadOutcomes outcomes)

def asReadList : List (Effect R) → List (Effect R)
  | [] => []
  | e :: es => asRead e :: asReadList es

def asReadOutcomes : List (R × Effect R) → List (R × Effect R)
  | [] => []
  | (p, e) :: rest => (Number.unsigned p, asRead e) :: asReadOutcomes rest
end

theorem as_read_list (es : List (Effect R)) : asReadList es = es.map asRead := by
  induction es with
  | nil => rfl
  | cons e es ih => rw [asReadList, ih, List.map_cons]

theorem as_read_outcomes (outcomes : List (R × Effect R)) :
    asReadOutcomes outcomes = outcomes.map fun outcome => (Number.unsigned outcome.1, outcome.2.asRead) := by
  induction outcomes with
  | nil => rfl
  | cons outcome outcomes ih => rw [asReadOutcomes, ih, List.map_cons]

theorem text_list (es : List (Effect R)) :
    (listText es).toList = es.flatMap fun e => ' ' :: e.text.toList := by
  induction es with
  | nil => rfl
  | cons e es ih => simp [listText, ih]

theorem text_outcomes (outcomes : List (R × Effect R)) : (outcomesText outcomes).toList =
    outcomes.flatMap fun outcome => ' ' :: (Number.source outcome.1).toList ++ ' ' :: outcome.2.text.toList := by
  induction outcomes with
  | nil => rfl
  | cons outcome outcomes ih => simp [outcomesText, ih]

end Effect

end Replan

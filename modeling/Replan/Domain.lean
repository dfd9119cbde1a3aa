import Replan.Action

set_option autoImplicit false

namespace Replan

structure Domain (R : Type) where
  name : String
  requirements : RequirementSet
  types : Hierarchy
  constants : List Term
  predicates : List Atom
  functions : List Atom
  actions : List (Action R)

namespace Domain

variable {R : Type}

def action? (d : Domain R) (name : String) : Option (Action R) :=
  d.actions.find? fun a => a.name == name

def predicateNames (d : Domain R) : List String := Sorted.ofList (d.predicates.map Atom.name)

def declaresFunction (d : Domain R) (name : String) : Bool :=
  d.functions.any (fun f => f.name == name) ||
    (name == rewardAtom.name && d.requirements.contains .rewards)

def usesCosts (d : Domain R) : Bool := d.declaresFunction totalCostAtom.name

def staticPredicates (d : Domain R) : List Atom :=
  let modified := d.actions.flatMap fun a => a.effect.modifiedPredicates
  d.predicates.filter fun p => !modified.contains p.name

def staticFunctions (d : Domain R) : List Atom :=
  let modified := d.actions.flatMap fun a => a.effect.modifiedFunctions
  d.functions.filter fun f => !modified.contains f.name

variable [Number R]

def sameList {α : Type} (same : α → α → Bool) : List α → List α → Bool
  | [], [] => true
  | a :: as, b :: bs => same a b && sameList same as bs
  | _, _ => false

def same (d e : Domain R) : Bool :=
  d.name == e.name && d.requirements == e.requirements && d.types.same e.types &&
    sameList Term.same d.constants e.constants && sameList Atom.same d.predicates e.predicates &&
    sameList Atom.same d.functions e.functions && sameList Action.same d.actions e.actions

def clause (keyword : String) (items : List String) : String :=
  if items.isEmpty then "" else "  (" ++ " ".intercalate (keyword :: items) ++ ")\n"

def text (d : Domain R) : String :=
  "(define (domain " ++ d.name ++ ")\n" ++
    clause ":requirements" (d.requirements.map Requirement.keyword) ++
    (if d.types.isEmpty then "" else clause ":types" [d.types.text]) ++
    (if d.constants.isEmpty then "" else clause ":constants" [Term.listText d.constants]) ++
    clause ":predicates" (d.predicates.map Atom.declaration) ++
    clause ":functions" (d.functions.map Atom.declaration) ++
    String.join (d.actions.map fun a => a.text ++ "\n") ++
    ")"

end Domain

end Replan

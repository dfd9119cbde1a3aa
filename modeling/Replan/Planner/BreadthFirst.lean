import Std.Data.HashSet
import Replan.Planner

set_option autoImplicit false

namespace Replan.BreadthFirst

variable {R : Type} [Number R]

abbrev Mark := List Ground × List (Ground × String)

def mark (s : State R) : Mark := (s.facts, s.fluents.map fun (f, x) => (f, Number.text x))

structure Node (R : Type) where
  state : State R
  steps : List Ground

structure Frontier (R : Type) where
  found : List (Node R)
  seen : Std.HashSet Mark

def visit (node : Node R) (frontier : Frontier R) (a : Action R) : Frontier R :=
  match a.apply node.state none with
  | .ok (some next) =>
      let m := mark next
      if frontier.seen.contains m then frontier
      else ⟨⟨next, a.step :: node.steps⟩ :: frontier.found, frontier.seen.insert m⟩
  | _ => frontier

def layer (p : Problem R) (actions : List (Action R)) (frontier : Frontier R) :
    List (Node R) → Plan ⊕ Frontier R
  | [] => .inr frontier
  | node :: rest =>
      if p.isGoal node.state then .inl node.steps.reverse
      else layer p actions (actions.foldl (visit node) frontier) rest

def lastLayer (p : Problem R) : List (Node R) → Option Plan
  | [] => none
  | node :: rest => if p.isGoal node.state then some node.steps.reverse else lastLayer p rest

def deepen (p : Problem R) (actions : List (Action R)) (seen : Std.HashSet Mark)
    (nodes : List (Node R)) : Nat → Option Plan
  | 0 => lastLayer p nodes
  | depth + 1 =>
      match nodes with
      | [] => none
      | _ =>
          match layer p actions ⟨[], seen⟩ nodes with
          | .inl plan => some plan
          | .inr frontier => deepen p actions frontier.seen frontier.found.reverse depth

def search (depth : Nat) (p : Problem R) : Option Plan :=
  let start := p.initialState
  deepen p p.groundActions (Std.HashSet.emptyWithCapacity.insert (mark start)) [⟨start, []⟩] depth

def planner (depth : Nat) : Planner R Unit where
  solve memory p _ := (⟨search depth p, false, 0⟩, memory)

end Replan.BreadthFirst
